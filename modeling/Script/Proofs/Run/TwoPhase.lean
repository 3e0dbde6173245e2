import Script.Proofs.Grammar.Program
import Script.Proofs.Run.Output
import Script.Run.Session
import Script.Run.Batch

/-!
# Reading first, and running then

A pass runs each statement before it parses the next one.  It might as well read the whole source
first: what is run does not influence what is read.  So a pass amounts to two phases.  The first one
reads the source into a program, and the second one runs the statements of the program in order, and
shows each value to the observer.

## Main definitions

* `Pass.runStatements`: runs the statements of a program.
* `Pass.Completes`, `Pass.Starts`: a pass has completed statements, and comes to the next one.
* `Observer.Reliable`: the observers that fail on no sink that accepts every write.
* `Pass.twoPhase`: the reference for a pass.

## Main results

* `Pass.runSource_eq_runStatements`: a pass runs the statements of its program.
* `Pass.runSource_eq_twoPhase`: a pass with a reliable observer is the reference.
-/

namespace Script

variable {ω : Type}

/-! ## Passes over programs -/

namespace Pass

/-- How a pass ends once all statements of a program are completed. -/
def ending (p : Pass ω) : Option ParseError → Except Error Flow
  | none => .ok .exhausted
  | some e => .error (p.interrupt (.parse e))

/-- Runs statements in order, and ends as given if all of them are completed. -/
def runStatements (p : Pass ω) (ending : Except Error Flow) :
    List (Stmt Unit) → Progress ω → Except Error Flow × Progress ω
  | [], now => (ending, now)
  | s :: rest, now =>
    match s.evaluate p.fuel (machine now) with
    | .error stop m => (p.halt stop, resume now m)
    | .ok value m =>
      match p.observe value (resume now m) with
      | (.error e, now) => (.error e, now)
      | (.ok (), now) => p.runStatements ending rest now

section Equations

variable {p : Pass ω} {ending : Except Error Flow} {s : Stmt Unit} {rest : List (Stmt Unit)}
variable {now now₁ : Progress ω} {m : Machine} {value : Value}

/-- A statement that stops ends the pass. -/
theorem runStatements_of_stop {stop : Stop}
    (hs : s.evaluate p.fuel (machine now) = .error stop m) :
    p.runStatements ending (s :: rest) now = (p.halt stop, resume now m) := by
  unfold runStatements
  rw [hs]

/-- What an observer fails with is an error of the output. -/
theorem io_of_observe {e : Error} (h : p.observe value now = (.error e, now₁)) :
    ∃ cause, e = .io cause := by
  unfold observe at h
  split at h <;> cases h
  exact ⟨_, rfl⟩

/-- An observer that fails ends the pass. -/
theorem runStatements_of_refused {e : Error} (hs : s.evaluate p.fuel (machine now) = .ok value m)
    (hshown : p.observe value (resume now m) = (.error e, now₁)) :
    p.runStatements ending (s :: rest) now = (.error e, now₁) := by
  unfold runStatements
  rw [hs]
  simp only [hshown]

/-- After a statement that is completed and shown, the pass goes on. -/
theorem runStatements_of_shown (hs : s.evaluate p.fuel (machine now) = .ok value m)
    (hshown : p.observe value (resume now m) = (.ok (), now₁)) :
    p.runStatements ending (s :: rest) now = p.runStatements ending rest now₁ := by
  conv => lhs; unfold runStatements
  rw [hs]
  simp only [hshown]

end Equations

/-- **A stream is run as its program is.**  The number of rounds plays no part if it is greater than
the number of tokens. -/
theorem runTokens_eq_runStatements (p : Pass ω) {rounds : Nat} {s : TokenStream} (hs : s.Closed)
    (hrounds : s.remaining < rounds) (now : Progress ω) :
    p.runTokens rounds s now =
      p.runStatements (p.ending (s.program hs).failure) (s.program hs).code now := by
  induction s, hs using TokenStream.program.induct generalizing rounds now with
  | case1 s hs hmore e s' he =>
    obtain _ | rounds := rounds
    · exact absurd hrounds (Nat.not_lt_zero _)
    rw [TokenStream.program_of_error hs hmore he, runTokens, if_pos hmore, he]
    rfl
  | case2 s hs hmore stmt s' hstmt hless ih =>
    obtain _ | rounds := rounds
    · exact absurd hrounds (Nat.not_lt_zero _)
    -- the statement has used up a token, so one round less is enough for what follows
    have hrest := funext (ih (show s'.remaining < rounds by omega))
    rw [TokenStream.program_of_ok hs hmore hstmt, runTokens, if_pos hmore, hstmt]
    simp only [hrest]
    rfl
  | case3 s hs hmore =>
    obtain _ | rounds := rounds
    · exact absurd hrounds (Nat.not_lt_zero _)
    rw [Bool.not_eq_true] at hmore
    rw [TokenStream.program_of_end hs hmore, runTokens, hmore]
    rfl

/-- **A source is run as its program is.** -/
theorem runSource_eq_runStatements (p : Pass ω) (source : String) (now : Progress ω) :
    p.runSource source now =
      match readProgram source with
      | .error e => (.error (p.interrupt (.lex e)), now)
      | .ok program => p.runStatements (p.ending program.failure) program.code now := by
  unfold runSource
  cases hsource : TokenStream.ofSource source with
  | error e => rw [readProgram_of_error hsource]
  | ok tokens =>
    have hrounds : tokens.remaining < tokens.length := by
      unfold TokenStream.remaining TokenStream.length
      omega
    rw [readProgram_of_ok hsource]
    exact p.runTokens_eq_runStatements (TokenStream.ofSource_closed hsource) hrounds now

/-! ## The statement that a pass has come to -/

/-- All the statements are completed and the observer has seen their values, and this takes a pass
from `now` to `now'`. -/
inductive Completes (p : Pass ω) : List (Stmt Unit) → Progress ω → Progress ω → Prop
  | nil {now} : p.Completes [] now now
  | cons {s rest now now₁ now' value m} (hs : s.evaluate p.fuel (machine now) = .ok value m)
      (hshown : p.observe value (resume now m) = (.ok (), now₁))
      (hrest : p.Completes rest now₁ now') : p.Completes (s :: rest) now now'

/-- The observer leaves the namespace alone. -/
theorem ns_observe (p : Pass ω) (value : Value) (now : Progress ω) :
    (p.observe value now).2.ns = now.ns := by
  unfold observe
  split <;> rfl

/-- **What every statement keeps of a namespace is kept** while statements are completed. -/
theorem Completes.induct_ns {p : Pass ω} {code : List (Stmt Unit)} {now now' : Progress ω}
    {I : Namespace → Prop} (h : p.Completes code now now')
    (hstep : ∀ s ∈ code, ∀ (now : Progress ω) value m, I now.ns →
      s.evaluate p.fuel (machine now) = .ok value m → I (resume now m).ns)
    (hnow : I now.ns) : I now'.ns := by
  induction h with
  | nil => exact hnow
  | @cons s rest now now₁ now' value m hs hshown _ ih =>
    have hafter := hstep s (.head rest) now value m hnow hs
    rw [← p.ns_observe value (resume now m), hshown] at hafter
    exact ih (fun s' hs' => hstep s' (.tail s hs')) hafter

/-- A pass over a source comes to the statement `s` when it has completed the statements before it,
and then it stands at `now'`. -/
def Starts (p : Pass ω) (source : String) (now : Progress ω) (before : List (Stmt Unit))
    (s : Stmt Unit) (now' : Progress ω) : Prop :=
  ∃ program rest, readProgram source = .ok program ∧ program.code = before ++ s :: rest ∧
    p.Completes before now now'

section Statements

variable {p : Pass ω} {source : String} {now now' : Progress ω} {before : List (Stmt Unit)}
variable {s : Stmt Unit} {m : Machine}

/-- Statements that are completed are behind the pass. -/
theorem Completes.runStatements_append (h : p.Completes before now now')
    (ending : Except Error Flow) (rest : List (Stmt Unit)) :
    p.runStatements ending (before ++ rest) now = p.runStatements ending rest now' := by
  induction h with
  | nil => rfl
  | cons hs hshown _ ih =>
    rw [List.cons_append, runStatements_of_shown hs hshown]
    exact ih

/-- A pass comes to the second statement that is read if it completes the first one. -/
theorem starts_of_parseNext {s₀ s₁ s₂ : TokenStream} {first second : Stmt Span}
    (htokens : TokenStream.ofSource source = .ok s₀) (hmore : s₀.hasRemaining = true)
    (hfirst : s₀.parseNext = (.ok first, s₁)) (hmore' : s₁.hasRemaining = true)
    (hsecond : s₁.parseNext = (.ok second, s₂)) (hbefore : p.Completes [first.erase] now now') :
    p.Starts source now [first.erase] second.erase now' := by
  have hclosed := TokenStream.ofSource_closed htokens
  have hclosed₁ := TokenStream.closed_of_parseNext hclosed hfirst
  have hclosed₂ := TokenStream.closed_of_parseNext hclosed₁ hsecond
  have hcode : (s₀.program hclosed).code =
      [first.erase] ++ second.erase :: (s₂.program hclosed₂).code := by
    rw [TokenStream.program_of_ok hclosed hmore hfirst,
      TokenStream.program_of_ok hclosed₁ hmore' hsecond]
    rfl
  exact ⟨_, _, readProgram_of_ok htokens, hcode, hbefore⟩

/-- A pass goes on from the statement that it has come to. -/
theorem Starts.runSource_eq (h : p.Starts source now before s now') :
    ∃ ending rest, p.runSource source now = p.runStatements ending (s :: rest) now' := by
  obtain ⟨program, rest, hprogram, hcode, hbefore⟩ := h
  refine ⟨p.ending program.failure, rest, ?_⟩
  rw [runSource_eq_runStatements, hprogram]
  simp only [hcode]
  exact hbefore.runStatements_append _ _

/-- **A pass ends with the statement that stops.** -/
theorem Starts.runSource_of_stop (h : p.Starts source now before s now') {stop : Stop}
    (hs : s.evaluate p.fuel (machine now') = .error stop m) :
    p.runSource source now = (p.halt stop, resume now' m) := by
  obtain ⟨ending, rest, hrun⟩ := h.runSource_eq
  rw [hrun, runStatements_of_stop hs]

/-- **A pass ends with the value that the observer cannot take.** -/
theorem Starts.runSource_of_refused (h : p.Starts source now before s now') {value : Value}
    {e : Error} {after : Progress ω} (hs : s.evaluate p.fuel (machine now') = .ok value m)
    (hshown : p.observe value (resume now' m) = (.error e, after)) :
    p.runSource source now = (.error e, after) := by
  obtain ⟨ending, rest, hrun⟩ := h.runSource_eq
  rw [hrun, runStatements_of_refused hs hshown]

end Statements

end Pass

/-! ## Reliable observers -/

/-- An observer that does not fail as long as the sink accepts every write, and then leaves such a
sink. -/
def Observer.Reliable (o : Observer ω) : Prop :=
  ∀ value σ text seen, ∃ text' seen',
    o value σ (.holding text) seen = (.ok (), .holding text', seen')

theorem Observer.reliable_discard : Observer.discard.Reliable :=
  fun _ _ text seen => ⟨text, seen, rfl⟩

theorem Observer.reliable_echo : Observer.echo.Reliable := by
  intro value σ text seen
  refine ⟨text ++ (σ.display value ++ "\n"), seen, ?_⟩
  simp [Observer.echo]

namespace Pass

/-- Where a pass stands once the observer has seen a value, whatever the observer says. -/
def shown (p : Pass ω) (value : Value) (now : Progress ω) : Progress ω :=
  let (_, sink, seen) := p.observer value now.ns.store now.sink now.seen
  ⟨now.ns, sink, seen⟩

/-- A reliable observer is content, and the sink accepts every write afterwards. -/
theorem observe_of_reliable {p : Pass ω} (hobserver : p.observer.Reliable) {now : Progress ω}
    (hsink : now.sink.limit = none) (value : Value) :
    p.observe value now = (.ok (), p.shown value now) ∧
      (p.shown value now).sink.limit = none := by
  obtain ⟨ns, sink, seen⟩ := now
  obtain ⟨text, rfl⟩ : ∃ text, sink = .holding text := ⟨_, Sink.eq_holding hsink⟩
  obtain ⟨text', seen', hsees⟩ := hobserver value ns.store text seen
  simp only [observe, shown, hsees, true_and]
  rfl

/-! ## The two phases -/

/-- The second phase: runs statements in order up to the first one that stops, and says what stopped
it.  The value of each statement that is completed is shown to the observer, once and before the
next statement is run. -/
def evaluateAll (p : Pass ω) : List (Stmt Unit) → Progress ω → Option Stop × Progress ω
  | [], now => (none, now)
  | s :: rest, now =>
    match s.evaluate p.fuel (machine now) with
    | .error stop m => (some stop, resume now m)
    | .ok value m => p.evaluateAll rest (p.shown value (resume now m))

/-- **The reference for a pass.**  The source is read to its end, and only then the statements in
front of the first failure of the parser are run.  A failure of the parser is a failure of the pass
only if all these statements are completed. -/
def twoPhase (p : Pass ω) (source : String) (now : Progress ω) : Except Error Flow × Progress ω :=
  match readProgram source with
  | .error e => (.error (.script ⟨.lex e, p.policy⟩), now)
  | .ok program =>
    match p.evaluateAll program.code now with
    | (some (.raise payload), now) => (.error (.script ⟨.eval payload, p.policy⟩), now)
    | (some (.exit code), now) => (.ok (.exit code), now)
    | (some (.fault f), now) => (.error (.faulty f), now)
    | (some .outOfFuel, now) => (.error .outOfFuel, now)
    | (none, now) =>
      match program.failure with
      | some e => (.error (.script ⟨.parse e, p.policy⟩), now)
      | none => (.ok .exhausted, now)

/-- With a reliable observer, only a statement can end the second phase early. -/
theorem runStatements_eq_evaluateAll {p : Pass ω} (hobserver : p.observer.Reliable)
    (ending : Except Error Flow) (body : List (Stmt Unit)) {now : Progress ω}
    (hsink : now.sink.limit = none) :
    p.runStatements ending body now =
      (((p.evaluateAll body now).1.map p.halt).getD ending, (p.evaluateAll body now).2) := by
  induction body generalizing now with
  | nil => rfl
  | cons s body ih =>
    obtain ⟨m, hresume, houtcome⟩ := s.evaluate_of_effect p.fuel hsink
    unfold runStatements evaluateAll
    cases hresult : (s.effect p.fuel now.ns).result with
    | error stop =>
      rw [hresult] at houtcome
      simp only [houtcome]
      rfl
    | ok value =>
      rw [hresult] at houtcome
      have hopen : (resume now m).sink.limit = none := by
        rw [hresume]
        rfl
      obtain ⟨hobserve, hshown⟩ := observe_of_reliable hobserver hopen value
      simp only [houtcome, hobserve]
      exact ih hshown

/-- A failure of the script in the reference carries the policy of the pass. -/
theorem policy_of_twoPhase {p : Pass ω} {source : String} {now : Progress ω} {i : Interruption}
    (h : (p.twoPhase source now).1 = .error (.script i)) : i.policy = p.policy := by
  unfold twoPhase at h
  split at h
  · cases h
    rfl
  · split at h
    · cases h
      rfl
    -- an exit is no failure, and neither a fault nor the end of the fuel is the script's
    · cases h
    · cases h
    · cases h
    · split at h
      · cases h
        rfl
      · cases h

/-- **A pass is the reference.**  Whatever the source, the namespace and the policy are, a pass with
an observer that does not fail does what the two phases do, and every failure of the script carries
the policy of the pass. -/
theorem runSource_eq_twoPhase {p : Pass ω} (hobserver : p.observer.Reliable) {now : Progress ω}
    (hsink : now.sink.limit = none) (source : String) :
    p.runSource source now = p.twoPhase source now ∧
      ∀ i, (p.runSource source now).1 = .error (.script i) → i.policy = p.policy := by
  have heq : p.runSource source now = p.twoPhase source now := by
    rw [runSource_eq_runStatements, twoPhase]
    cases readProgram source with
    | error e => rfl
    | ok program =>
      simp only [runStatements_eq_evaluateAll hobserver _ _ hsink]
      rcases p.evaluateAll program.code now with ⟨_ | stop, now'⟩
      · cases program.failure <;> rfl
      · cases stop <;> rfl
  refine ⟨heq, fun i hi => ?_⟩
  rw [heq] at hi
  exact policy_of_twoPhase hi

/-- Two statements are run before the tokens that are no statement are complained of.  A session
shows the two values, and a batch run does not. -/
theorem runSource_eq_twoPhase_unfinished :
    let now : Progress Unit := ⟨.prelude, .holding "> ", ()⟩
    let source := "let x = true; x; let let"
    Observer.echo.Reliable ∧ Observer.discard.Reliable ∧ now.sink.limit = none ∧
      (Session.pass 9).runSource source now = (Session.pass 9).twoPhase source now ∧
      (Batch.pass 9).runSource source now = (Batch.pass 9).twoPhase source now ∧
      ((Session.pass 9).runSource source now).2.sink.stored = "> true\ntrue\n" ∧
      ((Batch.pass 9).runSource source now).2.sink.stored = "> " := by
  intro now source
  have hsink : now.sink.limit = none := rfl
  have hsession := runSource_eq_twoPhase (p := Session.pass 9) Observer.reliable_echo hsink source
  have hbatch := runSource_eq_twoPhase (p := Batch.pass 9) Observer.reliable_discard hsink source
  exact ⟨Observer.reliable_echo, Observer.reliable_discard, hsink, hsession.1, hbatch.1,
    by decide +kernel, by decide +kernel⟩

end Pass

end Script
