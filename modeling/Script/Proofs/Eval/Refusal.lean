import Script.Proofs.Eval.Appending
import Script.Proofs.Run.Output

/-!
# Lines that the output refuses

A sink with a limit refuses a line that would exceed it, and then a call of `println` raises a text.
Until that happens, an evaluation on such a sink is the evaluation on a sink that accepts
everything: the same visits are entered in the same order, and they come to the same values in the
same store.

The two evaluations are followed in lock step, with nothing but the limit between them.

## Main definitions

* `Machine.unbounded`, `Visit.unbounded`: the same on a sink that accepts everything.
* `Visit.Refuses`: a call of `println` whose line is refused.
* `Visit.Hindered`: a visit on whose way a line is refused, for the first time.

## Main results

* `Visit.related_or_hindered`: a task comes to the same on both sinks, unless a line is refused.
* `Visit.Reaches.together`: until a line is refused, the same visits are entered on both sinks.
* `Visit.Refuses.halts`: a refused call raises a text.
-/

namespace Script

open Eval Outcome

/-! ## The same on a sink that accepts everything -/

theorem Sink.stored_of_write {s t : Sink} {text : String} (h : s.write text = (true, t)) :
    t.stored = s.stored ++ text := by
  unfold write at h
  split at h <;> cases h
  rfl

theorem Sink.stored_writeLine {s : Sink} {text : String} (h : (s.writeLine text).1 = true) :
    (s.writeLine text).2.stored = s.stored ++ (text ++ "\n") := by
  unfold writeLine at h ⊢
  rcases hfirst : s.write text with ⟨_ | _, t⟩
  · rw [hfirst] at h
    cases h
  · rw [hfirst] at h
    have hsecond : t.write "\n" = (true, (t.write "\n").2) := Prod.ext h rfl
    show (t.write "\n").2.stored = _
    rw [stored_of_write hsecond, stored_of_write hfirst, String.append_assoc]

/-- A text that is refused would exceed the limit. -/
theorem Sink.lt_of_write {s : Sink} {text : String} {limit : Nat} (hlimit : s.limit = some limit)
    (h : (s.write text).1 = false) : limit < s.stored.utf8ByteSize + text.utf8ByteSize := by
  unfold write at h
  split at h
  · cases h
  · next hrefused =>
    rw [Bool.or_eq_true, not_or] at hrefused
    simpa [accepts, hlimit] using hrefused.2

theorem Sink.lt_of_writeLine {s : Sink} {text : String} {limit : Nat}
    (hlimit : s.limit = some limit) (h : (s.writeLine text).1 = false) :
    limit < (s.stored ++ (text ++ "\n")).utf8ByteSize := by
  have hend : "\n".utf8ByteSize = 1 := rfl
  rw [String.utf8ByteSize_append, String.utf8ByteSize_append]
  have hextends := s.extends_write text
  unfold writeLine at h
  rcases hfirst : s.write text with ⟨_ | _, t⟩
  · have hfull := lt_of_write hlimit (congrArg Prod.fst hfirst)
    omega
  · rw [hfirst] at h hextends
    have hfull := lt_of_write (hextends.limit_eq.trans hlimit) h
    rw [stored_of_write hfirst, String.utf8ByteSize_append] at hfull
    omega

/-- The machine on a sink that holds the same and accepts everything. -/
def Machine.unbounded (m : Machine) : Machine := { m with sink := .holding m.sink.stored }

/-- The visit on a sink that holds the same and accepts everything. -/
def Visit.unbounded (v : Visit) : Visit := { v with machine := v.machine.unbounded }

/-- The lock step of a run with the run on a sink that accepts everything. -/
def refusing : Lockstep where
  Stores σ scopes := scopes = σ.scopes
  Sinks a b := b = .holding a.stored
  Own _ := True
  Names _ := True
  Frozen := False
  size_eq h := congrArg Array.size h
  names_of_closure _ _ _ _ := trivial
  lookup_eq _ _ h _ := by rw [h, Store.withScopes_self]
  own_newScope _ := trivial
  stores_newArray _ h := h
  stores_newMap _ h := h
  stores_newFunction _ h _ := h
  stores_newScope outer bindings h := congrArg (Array.push · ⟨outer, bindings⟩) h
  stores_define _ h _ _ := by rw [h, Store.withScopes_self]
  stores_assign _ _ _ h _ := by
    rw [h, Store.withScopes_self]
    exact ⟨rfl, rfl⟩
  stores_modifyArray _ _ _ h := h
  stores_modifyMap _ _ _ h := h
  sinks_writeLine := by
    rintro a _ text rfl hline
    rw [Sink.writeLine_holding] at hline ⊢
    rw [Sink.stored_writeLine hline]

theorem joins_refusing {here : ScopeId} {m m' : Machine} :
    refusing.Joins here m m' ↔ m.scope = here ∧ m' = m.unbounded := by
  constructor
  · rintro ⟨rfl, rfl⟩
    exact ⟨rfl, rfl⟩
  · rintro ⟨rfl, rfl⟩
    exact .intro (S := refusing) (σ := m.store) rfl rfl

namespace Visit

variable {v w : Visit}

/-- A call of `println` whose line is refused. -/
inductive Refuses : Visit → Prop
  | intro {n f receiver args m} (hf : m.store.function? f = some (.native .println))
      (hargs : args.length ≤ 1) (hline : (m.sink.writeLine (printed m.store args)).1 = false) :
      Refuses ⟨n, .call (.function f) receiver args, m⟩

/-- A line is refused on the way of a visit, and up to there the same has been done on the sink that
accepts everything. -/
def Hindered (v : Visit) : Prop :=
  ∃ w, Together (v, v.unbounded) (w, w.unbounded) ∧ w.Refuses

theorem splits_refusing {v' : Visit} :
    refusing.Splits (v, v') ↔ v.Refuses ∧ v' = v.unbounded := by
  constructor
  · rintro (⟨hjoins, hf, hargs, hline⟩ | ⟨hfrozen, -⟩)
    · obtain ⟨-, rfl⟩ := joins_refusing.mp hjoins
      refine ⟨⟨hf, hargs, ?_⟩, rfl⟩
      simpa [Machine.unbounded] using hline
    · exact hfrozen.elim
  · rintro ⟨⟨hf, hargs, hline⟩, rfl⟩
    refine .line (joins_refusing.mpr ⟨rfl, rfl⟩) hf hargs ?_
    simp [Machine.unbounded, hline]

theorem parts_refusing : refusing.Parts (v, v.unbounded) ↔ v.Hindered := by
  constructor
  · rintro ⟨⟨w, w'⟩, htogether, hsplits⟩
    obtain ⟨hrefuses, rfl⟩ := splits_refusing.mp hsplits
    exact ⟨w, htogether, hrefuses⟩
  · rintro ⟨w, htogether, hrefuses⟩
    exact ⟨(w, w.unbounded), htogether, splits_refusing.mpr ⟨hrefuses, rfl⟩⟩

theorem Hindered.enter (h : w.Hindered) (h₁ : Enters v w) (h₂ : Enters v.unbounded w.unbounded) :
    v.Hindered := by
  obtain ⟨u, htogether, hrefuses⟩ := h
  exact ⟨u, .head (.inl ⟨h₁, h₂⟩) htogether, hrefuses⟩

theorem Hindered.attempt (h : w.Hindered) (h₁ : Tries v w) (h₂ : Tries v.unbounded w.unbounded) :
    v.Hindered := by
  obtain ⟨u, htogether, hrefuses⟩ := h
  exact ⟨u, .head (.inr ⟨h₁, h₂⟩) htogether, hrefuses⟩

section Tasks

variable {n : Nat} {t : Task} {m k : Machine}

theorem related_or_hindered (n : Nat) (t : Task) (m : Machine) :
    Related Eq (refusing.Joins m.scope) Eq (t.run n m) (t.run n m.unbounded) ∨
      Hindered ⟨n, t, m⟩ := by
  have hjoins : refusing.Joins m.scope m m.unbounded := joins_refusing.mpr ⟨rfl, rfl⟩
  rcases refusing.follows n t ⟨fun _ _ => trivial, fun _ => trivial⟩ hjoins with hrelated | hparts
  · exact .inl hrelated
  · exact .inr (parts_refusing.mp hparts)

/-- A task that comes to a result comes to the same one on the sink that accepts everything. -/
theorem ok_or_hindered {a : t.Result} (h : t.run n m = .ok a k) :
    t.run n m.unbounded = .ok a k.unbounded ∨ Hindered ⟨n, t, m⟩ := by
  rcases related_or_hindered n t m with hrelated | hhindered
  · rw [h] at hrelated
    generalize t.run n m.unbounded = r at hrelated ⊢
    cases hrelated with
    | ok hvalue hstate =>
      obtain ⟨-, rfl⟩ := joins_refusing.mp hstate
      subst hvalue
      exact .inl rfl
  · exact .inr hhindered

theorem error_or_hindered {s : Stop} (h : t.run n m = .error s k) :
    t.run n m.unbounded = .error s k.unbounded ∨ Hindered ⟨n, t, m⟩ := by
  rcases related_or_hindered n t m with hrelated | hhindered
  · rw [h] at hrelated
    generalize t.run n m.unbounded = r at hrelated ⊢
    cases hrelated with
    | error herror hstate =>
      obtain ⟨-, rfl⟩ := joins_refusing.mp hstate
      subst herror
      exact .inl rfl
  · exact .inr hhindered

end Tasks

/-- **The same step is taken on both sinks**, unless a line has been refused before it. -/
theorem Enters.unbounded (h : Enters v w) :
    Enters v.unbounded w.unbounded ∨ v.Hindered := by
  cases h with
  | left | operand | assigned | callee | array | map | indexed | owner | exprsHead | entriesHead
  | calleeOwner | placeOwner | placeIndexed | stmtsHead | init | expr | condition | iterated
  | thrown | returned | roundTest | itemBody | block | loop | stmts =>
    left
    constructor
  | calleeValue hself => exact .inl (.calleeValue hself)
  | code hf hargs hdepth => exact .inl (.code hf hargs hdepth)
  | right hleft hop =>
    rcases ok_or_hindered (t := .expr _) hleft with hfree | hhindered
    · exact .inl (.right hfree hop)
    · exact .inr (hhindered.enter .left .left)
  | place hvalue =>
    rcases ok_or_hindered (t := .expr _) hvalue with hfree | hhindered
    · exact .inl (.place hfree)
    · exact .inr (hhindered.enter .assigned .assigned)
  | args hcallee =>
    rcases ok_or_hindered (t := .callee _) hcallee with hfree | hhindered
    · exact .inl (.args hfree)
    · exact .inr (hhindered.enter .callee .callee)
  | call hcallee hargs =>
    rcases ok_or_hindered (t := .callee _) hcallee with hfree | hhindered
    · rcases ok_or_hindered (t := .exprs _) hargs with hfree' | hhindered
      · exact .inl (.call hfree hfree')
      · exact .inr (hhindered.enter (.args hcallee) (.args hfree))
    · exact .inr (hhindered.enter .callee .callee)
  | index hcontainer =>
    rcases ok_or_hindered (t := .expr _) hcontainer with hfree | hhindered
    · exact .inl (.index hfree)
    · exact .inr (hhindered.enter .indexed .indexed)
  | exprsTail hhead =>
    rcases ok_or_hindered (t := .expr _) hhead with hfree | hhindered
    · exact .inl (.exprsTail hfree)
    · exact .inr (hhindered.enter .exprsHead .exprsHead)
  | entriesTail hhead =>
    rcases ok_or_hindered (t := .expr _) hhead with hfree | hhindered
    · exact .inl (.entriesTail hfree)
    · exact .inr (hhindered.enter .entriesHead .entriesHead)
  | placeIndex hcontainer =>
    rcases ok_or_hindered (t := .expr _) hcontainer with hfree | hhindered
    · exact .inl (.placeIndex hfree)
    · exact .inr (hhindered.enter .placeIndexed .placeIndexed)
  | stmtsTail hhead =>
    rcases ok_or_hindered (t := .stmt _) hhead with hfree | hhindered
    · exact .inl (.stmtsTail hfree)
    · exact .inr (hhindered.enter .stmtsHead .stmtsHead)
  | yes hcondition hv =>
    rcases ok_or_hindered (t := .expr _) hcondition with hfree | hhindered
    · exact .inl (.yes hfree hv)
    · exact .inr (hhindered.enter .condition .condition)
  | no hcondition hv =>
    rcases ok_or_hindered (t := .expr _) hcondition with hfree | hhindered
    · exact .inl (.no hfree hv)
    · exact .inr (hhindered.enter .condition .condition)
  | items he hvs =>
    rcases ok_or_hindered (t := .expr _) he with hfree | hhindered
    · exact .inl (.items hfree hvs)
    · exact .inr (hhindered.enter .iterated .iterated)
  | handler hbody =>
    rcases error_or_hindered (t := .body _ _) hbody with hfree | hhindered
    · exact .inl (.handler hfree)
    · exact .inr (hhindered.attempt .body .body)
  | roundBody htest hv =>
    rcases ok_or_hindered (t := .expr _) htest with hfree | hhindered
    · exact .inl (.roundBody hfree hv)
    · exact .inr (hhindered.enter .roundTest .roundTest)
  | roundNext htest hv hbody hflow =>
    rcases ok_or_hindered (t := .expr _) htest with hfree | hhindered
    · rcases ok_or_hindered (t := .body _ _) hbody with hfree' | hhindered
      · exact .inl (.roundNext hfree hv hfree' hflow)
      · exact .inr (hhindered.enter (.roundBody htest hv) (.roundBody hfree hv))
    · exact .inr (hhindered.enter .roundTest .roundTest)
  | itemNext hbody hflow =>
    rcases ok_or_hindered (t := .body _ _) hbody with hfree | hhindered
    · exact .inl (.itemNext hfree hflow)
    · exact .inr (hhindered.enter .itemBody .itemBody)

theorem Tries.unbounded (h : Tries v w) : Tries v.unbounded w.unbounded := by
  cases h
  exact .body

/-- **Until a line is refused, the same visits are entered on both sinks.** -/
theorem Reaches.together (h : Reaches v w) :
    Together (v, v.unbounded) (w, w.unbounded) ∨ v.Hindered := by
  induction h using Relation.ReflTransGen.head_induction_on with
  | refl => exact .inl .refl
  | head hstep _ ih =>
    rcases hstep with henters | htries
    · rcases henters.unbounded with hfree | hhindered
      · rcases ih with htogether | hhindered
        · exact .inl (.head (.inl ⟨henters, hfree⟩) htogether)
        · exact .inr (hhindered.enter henters hfree)
      · exact .inr hhindered
    · rcases ih with htogether | hhindered
      · exact .inl (.head (.inr ⟨htries, htries.unbounded⟩) htogether)
      · exact .inr (hhindered.attempt htries htries.unbounded)

/-- A visit on whose way any line is refused is hindered: there is a first one. -/
theorem Reaches.hindered (h : Reaches v w) (hw : w.Refuses) : v.Hindered := by
  rcases h.together with htogether | hhindered
  · exact ⟨w, htogether, hw⟩
  · exact hhindered

/-! ### The refused call -/

/-- A call of `println` with a suitable number of arguments prints its line. -/
theorem run_println (n : Nat) (receiver : Option Value) {f : FunctionId} {args : List Value}
    {m : Machine} (hf : m.store.function? f = some (.native .println)) (hargs : args.length ≤ 1) :
    (Task.call (.function f) receiver args).run n m =
      (printLine (printed m.store args) >>= fun _ => pure Value.undefined) m := by
  show Eval.call (execStmt n) (.function f) receiver args m = _
  rw [call_of_native hf]
  have harity : checkArity Native.println.minArgs Native.println.maxArgs args.length = .ok () := by
    simp [checkArity, Native.minArgs, Native.maxArgs, hargs]
  unfold Native.call
  rw [harity]
  rfl

/-- **A refused call raises a text** that says why, and some of its line may have been written. -/
theorem Refuses.halts (h : w.Refuses) :
    w.Halts (.raise (.text ("println failed: " ++ IoError.sinkFull.message)))
      { w.machine with sink := w.output } := by
  obtain ⟨hf, hargs, hline⟩ := h
  rename_i n f receiver args m
  have hprint : printLine (printed m.store args) m =
      .error (.raise (.text ("println failed: " ++ IoError.sinkFull.message)))
        { m with sink := (m.sink.writeLine (printed m.store args)).2 } := by
    unfold printLine
    rcases hwrite : m.sink.writeLine (printed m.store args) with ⟨_ | _, sink⟩
    · rfl
    · rw [hwrite] at hline
      cases hline
  have hrun := (run_println n receiver hf hargs).trans (bind_of_error hprint)
  have houtput : output ⟨n, .call (.function f) receiver args, m⟩ =
      (m.sink.writeLine (printed m.store args)).2 := congrArg Machine.sink (after_of_error hrun)
  rw [houtput]
  exact hrun

/-- On the sink that accepts everything, the same call exceeds the limit. -/
theorem Refuses.lt_output (h : w.Refuses) {limit : Nat}
    (hlimit : w.machine.sink.limit = some limit) :
    limit < w.unbounded.output.stored.utf8ByteSize := by
  obtain ⟨hf, hargs, hline⟩ := h
  rename_i n f receiver args m
  have hprint : printLine (printed m.store args) m.unbounded =
      .ok () { m with sink := .holding (m.sink.stored ++ (printed m.store args ++ "\n")) } := by
    simp [printLine, Machine.unbounded]
  have hrun := (run_println n receiver (m := m.unbounded) hf hargs).trans
    (bind_of_ok hprint)
  have houtput : output (unbounded ⟨n, .call (.function f) receiver args, m⟩) =
      .holding (m.sink.stored ++ (printed m.store args ++ "\n")) :=
    congrArg Machine.sink (after_of_ok hrun)
  rw [houtput]
  exact Sink.lt_of_writeLine hlimit hline

end Visit

end Script
