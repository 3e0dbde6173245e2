import Script.Proofs.Eval.Refusal
import Script.Proofs.Run.Halting
import Script.Proofs.Run.TwoPhase

/-!
# A limit on the output

Up to the first write that is refused, a pass on a sink with a limit is the pass on a sink that
accepts everything: the same statements come to the same values in the same store, and the same text
is written.

The first refused write is that of a `println` call or that of the observer.  The call raises a
text, which goes to the innermost `try` statement around it, or ends the statement.  The observer
ends the pass: the statement has been completed and its effects stay, and nothing after it matters.

## Main definitions

* `Observer.WritesLines`: the observers that write at most a line for each value.
* `Pass.Refused`, `Pass.FirstRefusal`: a write is refused in a pass, and the first such write.
* `Pass.Moment`: the outputs that there are in the course of a pass.
* `Pass.LimitLaw`: what a limit means for a pass.

## Main results

* `Pass.clear_or_parts`, `Pass.compare`: a statement and a program on both sinks.
* `Pass.Moment.extends`: the output at every moment.
* `Pass.limit_matters_from_refusal`: a limit matters from the first refused write on.
-/

namespace Script

open Eval Outcome

/-! ## Observers -/

variable {ω : Type}

/-- Where a pass stands, on a sink that holds the same and accepts everything. -/
def Progress.unbounded (now : Progress ω) : Progress ω :=
  { now with sink := .holding now.sink.stored }

namespace Observer

/-- Writes a line for some of the values, and takes note of every value. -/
def lines (line? : Store → Value → Option String) (note : Value → Store → ω → ω) : Observer ω :=
  fun value σ sink seen =>
    match line? σ value with
    | none => (.ok (), sink, note value σ seen)
    | some text =>
      match sink.writeLine text with
      | (true, sink) => (.ok (), sink, note value σ seen)
      | (false, sink) => (.error .sinkFull, sink, note value σ seen)

/-- An observer that writes at most a line for each value. -/
def WritesLines (o : Observer ω) : Prop := ∃ line? note, o = lines line? note

theorem writesLines_discard : discard.WritesLines :=
  ⟨fun _ _ => none, fun _ _ seen => seen, rfl⟩

theorem writesLines_echo : echo.WritesLines :=
  ⟨fun σ value => some (σ.display value), fun _ _ seen => seen, rfl⟩

end Observer

namespace Pass

variable {p : Pass ω} {source : String} {now now' : Progress ω} {code before : List (Stmt Unit)}
variable {s : Stmt Unit}

/-- The observer sees a value with the same success on both sinks, or its line is refused. -/
theorem observe_or_refused (hobserver : p.observer.WritesLines) (value : Value)
    (now : Progress ω) :
    (∃ now₁, p.observe value now = (.ok (), now₁) ∧
      p.observe value now.unbounded = (.ok (), now₁.unbounded)) ∨
    ∃ after, p.observe value now = (.error (.io .sinkFull), after) ∧ after.ns = now.ns ∧
      ∀ limit, now.sink.limit = some limit →
        limit < (p.observe value now.unbounded).2.sink.stored.utf8ByteSize := by
  obtain ⟨line?, note, hlines⟩ := hobserver
  obtain ⟨ns, sink, seen⟩ := now
  simp only [observe, hlines, Observer.lines, Progress.unbounded]
  cases line? ns.store value with
  | none => exact .inl ⟨_, rfl, rfl⟩
  | some text =>
    simp only [Sink.writeLine_holding]
    rcases hwrite : sink.writeLine text with ⟨_ | _, sink'⟩
    · refine .inr ⟨_, rfl, rfl, fun limit hlimit => ?_⟩
      exact Sink.lt_of_writeLine hlimit (congrArg Prod.fst hwrite)
    · have hstored : sink'.stored = sink.stored ++ (text ++ "\n") := by
        have hline := Sink.stored_writeLine (congrArg Prod.fst hwrite)
        rwa [hwrite] at hline
      refine .inl ⟨_, rfl, ?_⟩
      simp only [hstored]

theorem extends_observe (hobserver : p.observer.WritesLines) (value : Value)
    (now : Progress ω) : now.sink.Extends (p.observe value now).2.sink := by
  obtain ⟨line?, note, hlines⟩ := hobserver
  obtain ⟨ns, sink, seen⟩ := now
  simp only [observe, hlines, Observer.lines]
  cases line? ns.store value with
  | none => exact .refl _
  | some text =>
    have hextends := sink.extends_writeLine text
    rcases hwrite : sink.writeLine text with ⟨_ | _, sink'⟩ <;> rw [hwrite] at hextends
    · simpa only [hwrite] using hextends
    · simpa only [hwrite] using hextends

/-! ## Refused writes -/

/-- A write is refused at the statement `s`, which a pass comes to when it stands at `now`. -/
inductive Meets (p : Pass ω) (s : Stmt Unit) (now : Progress ω) : Prop
  | printing {w} (hw : Visit.Reaches ⟨p.fuel, .stmt s, machine now⟩ w) (hrefuses : w.Refuses)
  | showing {value m e after} (hs : s.evaluate p.fuel (machine now) = .ok value m)
      (hrefused : p.observe value (resume now m) = (.error e, after))

/-- A write is refused somewhere in a pass. -/
def Refused (p : Pass ω) (source : String) (now : Progress ω) : Prop :=
  ∃ before s now', p.Starts source now before s now' ∧ p.Meets s now'

/-- Statements at which no write is refused, and which are completed alike on both sinks: they come
to the same values, and the machine and what the observer remembers are the same after each of
them. -/
inductive Alike (p : Pass ω) : List (Stmt Unit) → Progress ω → Progress ω → Prop
  | nil {now : Progress ω} : p.Alike [] now now
  | cons {s : Stmt Unit} {rest now₁ value m} {now now' : Progress ω} (hclear : ¬ p.Meets s now)
      (hs : s.evaluate p.fuel (machine now) = .ok value m)
      (hs' : s.evaluate p.fuel (machine now.unbounded) = .ok value m.unbounded)
      (hshown : p.observe value (resume now m) = (.ok (), now₁))
      (hshown' : p.observe value (resume now.unbounded m.unbounded) = (.ok (), now₁.unbounded))
      (hrest : p.Alike rest now₁ now') : p.Alike (s :: rest) now now'

theorem Alike.completes (h : p.Alike before now now') : p.Completes before now now' := by
  induction h with
  | nil => exact .nil
  | cons _ hs _ hshown _ _ ih => exact .cons hs hshown ih

/-- On both sinks a pass comes to the statement `s`, and all before it was alike. -/
def StartsAlike (p : Pass ω) (source : String) (now : Progress ω) (before : List (Stmt Unit))
    (s : Stmt Unit) (now' : Progress ω) : Prop :=
  ∃ program rest, readProgram source = .ok program ∧ program.code = before ++ s :: rest ∧
    p.Alike before now now'

theorem StartsAlike.starts (h : p.StartsAlike source now before s now') :
    p.Starts source now before s now' := by
  obtain ⟨program, rest, hprogram, hcode, halike⟩ := h
  exact ⟨program, rest, hprogram, hcode, halike.completes⟩

/-- The first refused write of a statement. -/
inductive Parts (p : Pass ω) (s : Stmt Unit) (now : Progress ω) : Prop
  | printing (hhindered : Visit.Hindered ⟨p.fuel, .stmt s, machine now⟩)
  | showing {value m after}
      (hclear : ∀ w, Visit.Reaches ⟨p.fuel, .stmt s, machine now⟩ w → ¬ w.Refuses)
      (hs : s.evaluate p.fuel (machine now) = .ok value m)
      (hs' : s.evaluate p.fuel (machine now.unbounded) = .ok value m.unbounded)
      (hrefused : p.observe value (resume now m) = (.error (.io .sinkFull), after))

theorem Parts.meets (h : p.Parts s now) : p.Meets s now := by
  cases h with
  | printing hhindered =>
    obtain ⟨w, htogether, hrefuses⟩ := hhindered
    exact .printing htogether.fst hrefuses
  | showing _ hs _ hrefused => exact .showing hs hrefused

/-- A statement at which no write is refused does the same on both sinks. -/
inductive Clear (p : Pass ω) (s : Stmt Unit) (now : Progress ω) : Prop
  | stops {stop m} (hs : s.evaluate p.fuel (machine now) = .error stop m)
      (hs' : s.evaluate p.fuel (machine now.unbounded) = .error stop m.unbounded)
  | completes {value m now₁} (hs : s.evaluate p.fuel (machine now) = .ok value m)
      (hs' : s.evaluate p.fuel (machine now.unbounded) = .ok value m.unbounded)
      (hshown : p.observe value (resume now m) = (.ok (), now₁))
      (hshown' : p.observe value (resume now.unbounded m.unbounded) = (.ok (), now₁.unbounded))

/-- **One statement**, on both sinks. -/
theorem clear_or_parts (hobserver : p.observer.WritesLines) (s : Stmt Unit) (now : Progress ω) :
    ¬ p.Meets s now ∧ p.Clear s now ∨ p.Parts s now := by
  by_cases hhindered : Visit.Hindered ⟨p.fuel, .stmt s, machine now⟩
  · exact .inr (.printing hhindered)
  have hquiet : ∀ w, Visit.Reaches ⟨p.fuel, .stmt s, machine now⟩ w → ¬ w.Refuses :=
    fun w hw hrefuses => hhindered (hw.hindered hrefuses)
  have hjoins : refusing.Joins now.ns.root (machine now) (machine now).unbounded :=
    joins_refusing.mpr ⟨rfl, rfl⟩
  rcases refusing.goes_evaluate p.fuel (s := s) (fun _ _ => trivial) (fun _ => trivial) hjoins with
    hrelated | hparts
  · generalize hs : s.evaluate p.fuel (machine now) = r at hrelated
    generalize hs' : s.evaluate p.fuel (machine now).unbounded = r' at hrelated
    cases hrelated with
    | @error stop stop' m m' herror hstate =>
      obtain ⟨-, rfl⟩ := joins_refusing.mp hstate
      subst herror
      refine .inl ⟨?_, .stops hs hs'⟩
      rintro (⟨hw, hrefuses⟩ | ⟨hok, -⟩)
      · exact hquiet _ hw hrefuses
      · rw [hs] at hok
        cases hok
    | @ok value value' m m' hvalue hstate =>
      obtain ⟨-, rfl⟩ := joins_refusing.mp hstate
      subst hvalue
      rcases observe_or_refused hobserver value (resume now m) with
        ⟨now₁, hshown, hshown'⟩ | ⟨after, hrefused, -⟩
      · refine .inl ⟨?_, .completes hs hs' hshown hshown'⟩
        rintro (⟨hw, hrefuses⟩ | ⟨hok, hrefused⟩)
        · exact hquiet _ hw hrefuses
        · rw [hs] at hok
          cases hok
          rw [hshown] at hrefused
          cases hrefused
      · exact .inr (.showing hquiet hs hs' hrefused)
  · exact absurd (Visit.parts_refusing.mp hparts) hhindered

/-- **All statements of a program**, on both sinks.  Either no write is refused and all is alike, or
there is a first refused write and all before it is alike. -/
theorem compare (hobserver : p.observer.WritesLines) (ending : Except Error Flow)
    (code : List (Stmt Unit)) (now : Progress ω) :
    (p.runStatements ending code now.unbounded =
        ((p.runStatements ending code now).1, (p.runStatements ending code now).2.unbounded) ∧
      ∀ before s rest now', code = before ++ s :: rest → p.Completes before now now' →
        ¬ p.Meets s now') ∨
    ∃ before s rest now', code = before ++ s :: rest ∧ p.Alike before now now' ∧
      p.Parts s now' := by
  induction code generalizing now with
  | nil => exact .inl ⟨rfl, by simp⟩
  | cons s code ih =>
    rcases clear_or_parts hobserver s now with ⟨hmeets, hclear⟩ | hparts
    · cases hclear with
      | stops hs hs' =>
        refine .inl ⟨?_, ?_⟩
        · rw [runStatements_of_stop hs, runStatements_of_stop hs']
          rfl
        · rintro before t rest now' heq hbefore
          cases hbefore with
          | nil =>
            cases heq
            exact hmeets
          | cons hok =>
            cases heq
            rw [hs] at hok
            cases hok
      | @completes value m now₁ hs hs' hshown hshown' =>
        rcases ih now₁ with ⟨hrun, hrest⟩ | ⟨before, t, rest, now', hcode, halike, hparts⟩
        · refine .inl ⟨?_, ?_⟩
          · rw [runStatements_of_shown hs hshown, runStatements_of_shown hs' hshown']
            exact hrun
          · rintro before t rest now' heq hbefore
            cases hbefore with
            | nil =>
              cases heq
              exact hmeets
            | cons hok hshown₁ hbefore =>
              cases heq
              rw [hs] at hok
              cases hok
              rw [hshown] at hshown₁
              cases hshown₁
              exact hrest _ t rest now' rfl hbefore
        · refine .inr ⟨s :: before, t, rest, now', by rw [hcode, List.cons_append], ?_, hparts⟩
          exact .cons hmeets hs hs' hshown hshown' halike
    · exact .inr ⟨[], s, code, now, rfl, .nil, hparts⟩

/-! ## The output at every moment -/

/-- The outputs that there are in the course of a pass. -/
inductive Moment (p : Pass ω) (source : String) (now : Progress ω) : Sink → Prop
  | start : p.Moment source now now.sink
  | enter {before s now' w} (hstarts : p.Starts source now before s now')
      (hw : Visit.Reaches ⟨p.fuel, .stmt s, machine now'⟩ w) : p.Moment source now w.machine.sink
  | leave {before s now' w} (hstarts : p.Starts source now before s now')
      (hw : Visit.Reaches ⟨p.fuel, .stmt s, machine now'⟩ w) : p.Moment source now w.output
  | shown {before s now' value m} (hstarts : p.Starts source now before s now')
      (hs : s.evaluate p.fuel (machine now') = .ok value m) :
      p.Moment source now (p.observe value (resume now' m)).2.sink
  | finish : p.Moment source now (p.runSource source now).2.sink

/-- What becomes of the completion of a statement writes nothing. -/
theorem sink_after_evaluate (n : Nat) (s : Stmt Unit) (m : Machine) :
    (after (s.evaluate n) m).sink = Visit.output ⟨n, .stmt s, m⟩ := by
  show (after (execStmt n s >>= _) m).sink = (after (execStmt n s) m).sink
  cases hs : execStmt n s m with
  | error stop k => rw [after_of_error hs, after_of_error (bind_of_error hs)]
  | ok flow k =>
    rw [after_of_ok hs]
    unfold after
    rw [bind_of_ok hs]
    cases flow <;> rfl

theorem extends_evaluate (now : Progress ω) {value : Value} {m : Machine}
    (hs : s.evaluate p.fuel (machine now) = .ok value m) : now.sink.Extends m.sink := by
  have hextends := Visit.extends_output ⟨p.fuel, .stmt s, machine now⟩
  rw [← sink_after_evaluate, after_of_ok hs] at hextends
  exact hextends

theorem Completes.extends (hobserver : p.observer.WritesLines)
    (h : p.Completes before now now') : now.sink.Extends now'.sink := by
  induction h with
  | nil => exact .refl _
  | @cons s rest now now₁ now' value m hs hshown _ ih =>
    have hseen := extends_observe hobserver value (resume now m)
    rw [hshown] at hseen
    exact ((extends_evaluate now hs).trans hseen).trans ih

/-- **All statements of a program** only append to the output. -/
theorem extends_runStatements (hobserver : p.observer.WritesLines) (ending : Except Error Flow)
    (code : List (Stmt Unit)) (now : Progress ω) :
    now.sink.Extends (p.runStatements ending code now).2.sink := by
  induction code generalizing now with
  | nil => exact .refl _
  | cons s code ih =>
    cases hs : s.evaluate p.fuel (machine now) with
    | error stop m =>
      have hstatement := Visit.extends_output ⟨p.fuel, .stmt s, machine now⟩
      rw [← sink_after_evaluate, after_of_error hs] at hstatement
      rw [runStatements_of_stop hs]
      exact hstatement
    | ok value m =>
      have hseen := extends_observe hobserver value (resume now m)
      have hshown := (extends_evaluate now hs).trans hseen
      rcases hobserve : p.observe value (resume now m) with ⟨e | _, now₁⟩
      · rw [hobserve] at hshown
        rw [runStatements_of_refused hs hobserve]
        exact hshown
      · rw [hobserve] at hshown
        rw [runStatements_of_shown hs hobserve]
        exact hshown.trans (ih now₁)

/-- The line of the observer is in the output at the end. -/
theorem Starts.extends_shown (hobserver : p.observer.WritesLines)
    (h : p.Starts source now before s now') {value : Value} {m : Machine}
    (hs : s.evaluate p.fuel (machine now') = .ok value m) :
    (p.observe value (resume now' m)).2.sink.Extends (p.runSource source now).2.sink := by
  obtain ⟨ending, rest, hrun⟩ := h.runSource_eq
  rw [hrun]
  rcases hobserve : p.observe value (resume now' m) with ⟨e | _, now₁⟩
  · rw [runStatements_of_refused hs hobserve]
    exact .refl _
  · rw [runStatements_of_shown hs hobserve]
    exact extends_runStatements hobserver ending rest now₁

/-- What a statement has written is in the output at the end. -/
theorem Starts.extends_output (hobserver : p.observer.WritesLines)
    (h : p.Starts source now before s now') :
    (Visit.output ⟨p.fuel, .stmt s, machine now'⟩).Extends (p.runSource source now).2.sink := by
  rw [← sink_after_evaluate]
  cases hs : s.evaluate p.fuel (machine now') with
  | error stop m =>
    rw [after_of_error hs, h.runSource_of_stop hs]
    exact .refl _
  | ok value m =>
    rw [after_of_ok hs]
    have hshown := extends_observe hobserver value (resume now' m)
    exact hshown.trans (h.extends_shown hobserver hs)

theorem Starts.extends (hobserver : p.observer.WritesLines)
    (h : p.Starts source now before s now') : now.sink.Extends now'.sink := by
  obtain ⟨-, -, -, -, hbefore⟩ := h
  exact hbefore.extends hobserver

/-- **The output at every moment** lies between the output at the start and that at the end. -/
theorem Moment.extends (hobserver : p.observer.WritesLines) {sink : Sink}
    (h : p.Moment source now sink) :
    now.sink.Extends sink ∧ sink.Extends (p.runSource source now).2.sink := by
  have hall : now.sink.Extends (p.runSource source now).2.sink := by
    rw [runSource_eq_runStatements]
    split
    · exact .refl _
    · exact extends_runStatements hobserver _ _ now
  cases h with
  | start => exact ⟨.refl _, hall⟩
  | @enter before s now' w hstarts hw =>
    have hbegin := (hstarts.extends hobserver).trans hw.extends
    have hend := hw.extends_output.trans (hstarts.extends_output hobserver)
    exact ⟨hbegin, w.extends_output.trans hend⟩
  | @leave before s now' w hstarts hw =>
    have hbegin := (hstarts.extends hobserver).trans hw.extends
    have hend := hw.extends_output.trans (hstarts.extends_output hobserver)
    exact ⟨hbegin.trans w.extends_output, hend⟩
  | @shown before s now' value m hstarts hs =>
    have hbegin := (hstarts.extends hobserver).trans (extends_evaluate now' hs)
    have hseen := extends_observe hobserver value (resume now' m)
    exact ⟨hbegin.trans hseen, hstarts.extends_shown hobserver hs⟩
  | finish => exact ⟨hall, .refl _⟩

/-! ## From the first refusal on -/

/-- Where a value goes that is raised in the visit `w`, when the machine is `m`: it ends the pass,
or it is handed to the handler of the innermost `try` statement around the visit. -/
inductive Arrives (p : Pass ω) (source : String) (now : Progress ω) (s : Stmt Unit)
    (now' : Progress ω) (w : Visit) (payload : Value) (m : Machine) : Prop
  | uncaught (hleads : Visit.Leads ⟨p.fuel, .stmt s, machine now'⟩ w)
      (hends : p.runSource source now = (.error (p.interrupt (.eval payload)), resume now' m))
  | caught {n a body name handler m₁}
      (htry : Visit.Reaches ⟨p.fuel, .stmt s, machine now'⟩
        ⟨n + 1, .stmt (.tryCatch a body name handler), m₁⟩)
      (hleads : Visit.Leads ⟨n, .body .empty body, m₁⟩ w)
      (hhandled : execStmt (n + 1) (.tryCatch a body name handler) m₁ =
        (runBinding (execStmt n) name handler payload >>= fun flow => pure flow.settle)
          (m₁.withEffects m))

theorem Starts.arrives (h : p.Starts source now before s now') {w : Visit} {payload : Value}
    {m : Machine} (hw : Visit.Reaches ⟨p.fuel, .stmt s, machine now'⟩ w)
    (hhalts : w.Halts (.raise payload) m) : p.Arrives source now s now' w payload m := by
  rcases hw.innermost with hleads | ⟨t, b, ht, htries, hb⟩
  · exact .uncaught hleads (h.runSource_of_stop (evaluate_of_halts (hleads.halts hhalts)))
  · cases htries with
    | @body n m₁ a body name handler =>
      have hhandled := Visit.Tries.handles a name handler (hb.halts hhalts)
      exact .caught ht hb hhandled

/-- The first write that is refused in a pass, on a sink with the given limit.  Up to it all is
alike on the sink that accepts everything, where the same write is the first to exceed the limit.

* If it is that of a `println` call, the call raises a text.
* If it is that of the observer, the pass ends with an error of the output.  The statement is
  completed, and what it did is kept.  What comes after it in the source makes no difference. -/
inductive FirstRefusal (p : Pass ω) (source : String) (now : Progress ω) (limit : Nat) : Prop
  | printing {before s now' w} (hstarts : p.StartsAlike source now before s now')
      (htogether : Visit.Together
        (⟨p.fuel, .stmt s, machine now'⟩, ⟨p.fuel, .stmt s, machine now'.unbounded⟩)
        (w, w.unbounded))
      (hrefuses : w.Refuses)
      (hover : limit < w.unbounded.output.stored.utf8ByteSize)
      (hhalts : w.Halts (.raise (.text ("println failed: " ++ IoError.sinkFull.message)))
        { w.machine with sink := w.output })
      (harrives : p.Arrives source now s now' w
        (.text ("println failed: " ++ IoError.sinkFull.message))
        { w.machine with sink := w.output })
  | showing {before s now' value m after} (hstarts : p.StartsAlike source now before s now')
      (hclear : ∀ w, Visit.Reaches ⟨p.fuel, .stmt s, machine now'⟩ w → ¬ w.Refuses)
      (hs : s.evaluate p.fuel (machine now') = .ok value m)
      (hs' : s.evaluate p.fuel (machine now'.unbounded) = .ok value m.unbounded)
      (hover : limit < (p.observe value (resume now' m).unbounded).2.sink.stored.utf8ByteSize)
      (hkept : after.ns = (resume now' m).ns)
      (hends : ∀ source', p.Starts source' now before s now' →
        p.runSource source' now = (.error (.io .sinkFull), after))

/-- What is written up to the first refusal is alike, and what is done there is known. -/
theorem StartsAlike.firstRefusal (hobserver : p.observer.WritesLines) {limit : Nat}
    (hlimit : now.sink.limit = some limit) (hstarts : p.StartsAlike source now before s now')
    (hparts : p.Parts s now') : p.FirstRefusal source now limit := by
  have hlimit' : now'.sink.limit = some limit :=
    (hstarts.starts.extends hobserver).limit_eq.trans hlimit
  cases hparts with
  | printing hhindered =>
    obtain ⟨w, htogether, hrefuses⟩ := hhindered
    have hw : w.machine.sink.limit = some limit := htogether.fst.extends.limit_eq.trans hlimit'
    exact .printing hstarts htogether hrefuses (hrefuses.lt_output hw) hrefuses.halts
      (hstarts.starts.arrives htogether.fst hrefuses.halts)
  | @showing value m after hclear hs hs' hrefused =>
    rcases observe_or_refused hobserver value (resume now' m) with
      ⟨now₁, hshown, -⟩ | ⟨after', hrefused', hkept, hover⟩
    · rw [hshown] at hrefused
      cases hrefused
    · rw [hrefused] at hrefused'
      cases hrefused'
      have hm : (resume now' m).sink.limit = some limit :=
        (extends_evaluate now' hs).limit_eq.trans hlimit'
      exact .showing hstarts hclear hs hs' (hover limit hm) hkept
        fun _ h => h.runSource_of_refused hs hrefused

/-- What a limit on the output means for a pass. -/
structure LimitLaw (p : Pass ω) (source : String) (ns : Namespace) (seen : ω) (limit : Nat) :
    Prop where
  /-- If no write is refused, then the limit makes no difference to the result, the output, the
  namespace and its store, and what the observer has seen. -/
  unnoticed : ¬ p.Refused source ⟨ns, .limited limit, seen⟩ →
    p.runSource source ⟨ns, .unlimited, seen⟩ =
      ((p.runSource source ⟨ns, .limited limit, seen⟩).1,
        (p.runSource source ⟨ns, .limited limit, seen⟩).2.unbounded)
  /-- Otherwise all is alike up to the first write that is refused. -/
  noticed : p.Refused source ⟨ns, .limited limit, seen⟩ →
    p.FirstRefusal source ⟨ns, .limited limit, seen⟩ limit
  /-- At every moment the output is within the limit, and it is the beginning of the output at the
  end. -/
  bytes : ∀ sink, p.Moment source ⟨ns, .limited limit, seen⟩ sink →
    sink.stored.utf8ByteSize ≤ limit ∧
      ∃ more, (p.runSource source ⟨ns, .limited limit, seen⟩).2.sink.stored = sink.stored ++ more

/-- **A limit on the output matters from the first refused write on**, whatever the source, the
namespace and the limit are. -/
theorem limit_matters_from_refusal {p : Pass ω} (hobserver : p.observer.WritesLines)
    (source : String) (ns : Namespace) (seen : ω) (limit : Nat) :
    p.LimitLaw source ns seen limit := by
  have hcompare : p.runSource source ⟨ns, .unlimited, seen⟩ =
        ((p.runSource source ⟨ns, .limited limit, seen⟩).1,
          (p.runSource source ⟨ns, .limited limit, seen⟩).2.unbounded) ∧
      ¬ p.Refused source ⟨ns, .limited limit, seen⟩ ∨
      p.Refused source ⟨ns, .limited limit, seen⟩ ∧
        p.FirstRefusal source ⟨ns, .limited limit, seen⟩ limit := by
    rw [runSource_eq_runStatements, runSource_eq_runStatements]
    cases hprogram : readProgram source with
    | error e =>
      refine .inl ⟨rfl, ?_⟩
      rintro ⟨before, s, now', ⟨program, rest, hread, -⟩, -⟩
      rw [hprogram] at hread
      cases hread
    | ok program =>
      rcases compare hobserver (p.ending program.failure) program.code
          ⟨ns, .limited limit, seen⟩ with
        ⟨hrun, hquiet⟩ | ⟨before, s, rest, now', hcode, halike, hparts⟩
      · refine .inl ⟨hrun, ?_⟩
        rintro ⟨before, s, now', ⟨program', rest, hread, hcode, hbefore⟩, hmeets⟩
        rw [hprogram] at hread
        cases hread
        exact hquiet before s rest now' hcode hbefore hmeets
      · have hstarts : p.StartsAlike source ⟨ns, .limited limit, seen⟩ before s now' :=
          ⟨program, rest, hprogram, hcode, halike⟩
        exact .inr ⟨⟨before, s, now', hstarts.starts, hparts.meets⟩,
          hstarts.firstRefusal hobserver rfl hparts⟩
  refine ⟨fun hquiet => ?_, fun hrefused => ?_, fun sink hmoment => ?_⟩
  · exact hcompare.elim And.left fun h => absurd h.1 hquiet
  · exact hcompare.elim (fun h => absurd hrefused h.2) And.right
  · obtain ⟨hbegin, hend⟩ := hmoment.extends hobserver
    have hstart : (Sink.limited limit).Fits := fun n _ => Nat.zero_le n
    exact ⟨hbegin.fits hstart limit hbegin.limit_eq, hend.stored⟩

/-- There is room for the text of a line but not for its end.  The `try` statement is told, and what
it makes of it cannot be shown either. -/
theorem limit_matters_from_refusal_four :
    Observer.discard.WritesLines ∧ Observer.echo.WritesLines ∧
      FirstRefusal ⟨.fatal, .echo, 9⟩ "try \x7b println(true); \x7d catch (e) \x7b e \x7d"
        ⟨.prelude, .limited 4, ()⟩ 4 ∧
      (runSource ⟨.fatal, .echo, 9⟩ "try \x7b println(true); \x7d catch (e) \x7b e \x7d"
        ⟨.prelude, .limited 4, ()⟩).2.sink.stored = "true" := by
  have hlaw := limit_matters_from_refusal (p := ⟨.fatal, .echo, 9⟩) Observer.writesLines_echo
    "try \x7b println(true); \x7d catch (e) \x7b e \x7d" .prelude () 4
  refine ⟨Observer.writesLines_discard, Observer.writesLines_echo, hlaw.noticed ?_,
    by decide +kernel⟩
  -- without the limit, the line is printed
  refine Classical.byContradiction fun hquiet => ?_
  have hfree := congrArg (fun r => r.2.sink.stored) (hlaw.unnoticed hquiet)
  exact absurd hfree (by decide +kernel)

end Pass

end Script
