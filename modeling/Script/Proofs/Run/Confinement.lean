import Script.Proofs.Eval.Jumping
import Script.Proofs.Run.Failing
import Script.Proofs.Run.InRange

/-!
# Jumps stay where they belong

A program is checked for misplaced jumps while it runs, but its text tells in advance that it cannot
fail such a check.  If every `break` and every `continue` is in a loop of its own function, and
every `return` is in a function, then no pass over the program from a new namespace finds a jump
where it may not be.

A program can throw any text, that of a complaint about jumps too.  So the law does not say that the
text never comes up.  It says that no check fails, and that a program that ends with such a text, or
raises it on the way, has thrown it.

## Main definitions

* `Namespace.Returning`: the functions of a namespace are left by returns only.
* `Pass.Confined`: the law.

## Main results

* `Pass.holds_runSource`: a pass makes no function objects but those of the program.
* `Pass.jumps_confined`: a statement ends with its own jumps only, and the law follows.
-/

namespace Script

open Eval Outcome

/-- The functions of the namespace are left by returns only. -/
def Namespace.Returning (ns : Namespace) : Prop := Heredity.returning.guarantee.Holds ns.store

/-! ## The top level -/

section TopLevel

variable {s : Stmt Unit} {fuel : Nat} {m m' : Machine}

/-- A well-placed statement goes on if it is completed. -/
theorem Stmt.WellPlaced.next_of_ok {flow : Completion} (hs : s.WellPlaced)
    (h : execStmt fuel s m = .ok flow m') : ∃ value, flow = .next value := by
  have hleaves := leavesBy_exec fuel s m flow m' h
  rw [hs.outside] at hleaves
  cases flow with
  | next value => exact ⟨value, rfl⟩
  | ret | brk | cont => cases hleaves _ rfl

/-- So the top level adds no failure of its own. -/
theorem Stmt.WellPlaced.halts_of_evaluate {stop : Stop} (hs : s.WellPlaced)
    (h : s.evaluate fuel m = .error stop m') :
    Visit.Halts ⟨fuel, .stmt s, m⟩ stop m' := by
  cases hexec : execStmt fuel s m with
  | error stop' k =>
    rw [Stmt.evaluate, bind_of_error hexec] at h
    cases h
    exact hexec
  | ok flow k =>
    obtain ⟨value, rfl⟩ := hs.next_of_ok hexec
    rw [Stmt.evaluate, bind_of_ok hexec] at h
    cases h

end TopLevel

namespace Pass

variable {ω : Type} {p : Pass ω} {source : String} {now now' : Progress ω} {w : Visit}
variable {H : Heredity} {code : List (Stmt Unit)}

/-! ## The functions of a program -/

/-- **The sort of the function objects is kept**, whatever the statements end with. -/
theorem holds_runStatements {ending : Except Error Flow} (hcode : ∀ s ∈ code, H.stmt s)
    (hnow : H.guarantee.Holds now.ns.store) :
    H.guarantee.Holds (p.runStatements ending code now).2.ns.store := by
  induction code generalizing now with
  | nil => exact hnow
  | cons s rest ih =>
    have hs := hcode s (.head rest)
    cases hrun : s.evaluate p.fuel (machine now) with
    | error stop m =>
      have hafter := holds_after (p := p) hs hnow
      rw [after_of_error hrun] at hafter
      rw [runStatements_of_stop hrun]
      exact hafter
    | ok value m =>
      have hafter := holds_of_ok hs hnow hrun
      rw [← p.ns_observe value (resume now m)] at hafter
      rcases hshown : p.observe value (resume now m) with ⟨e | _, now₁⟩
      · rw [hshown] at hafter
        rw [runStatements_of_refused hrun hshown]
        exact hafter
      · rw [hshown] at hafter
        rw [runStatements_of_shown hrun hshown]
        exact ih (fun s' hs' => hcode s' (.tail s hs')) hafter

theorem holds_runSource (hsource : H.Covers source) (hnow : H.guarantee.Holds now.ns.store) :
    H.guarantee.Holds (p.runSource source now).2.ns.store := by
  rw [runSource_eq_runStatements]
  cases hprogram : readProgram source with
  | error e => exact hnow
  | ok program => exact holds_runStatements (hsource program hprogram) hnow

theorem Visits.leads {v : Visit} (h : p.Visits source now v) (hleads : Visit.Leads v w) :
    p.Visits source now w := by
  obtain ⟨before, s, now', hstarts, hreaches⟩ := h
  exact ⟨before, s, now', hstarts, hreaches.trans (hleads.lift id fun _ _ => .inl)⟩

/-! ## The law -/

/-- **Jumps stay where they belong** in a pass over a source. -/
structure Confined (p : Pass ω) (source : String) (now : Progress ω) : Prop where
  /-- A statement at the top level goes on if it is completed: it does not end with a jump. -/
  topLevel : ∀ before s now' flow m, p.Starts source now before s now' →
    execStmt p.fuel s (machine now') = .ok flow m → ∃ value, flow = .next value
  /-- The body of a function that is called comes to its end or returns, if it is completed. -/
  called : ∀ n f receiver args m c flow m',
    p.Visits source now ⟨n, .call (.function f) receiver args, m⟩ →
    m.store.function? f = some (.closure c) →
    runAll (execStmt n) .undefined c.body (m.enterCall c args) = .ok flow m' →
    ∃ value, flow = .next value ∨ flow = .ret value
  /-- If a complaint about jumps is raised anywhere, a `throw` statement in that place has raised
  this very text. -/
  raised : ∀ (e : EvalError) w m, e.misplaced = true → p.Visits source now w →
    w.Halts (.raise (.text e.message)) m →
    ∃ n a value k k', Visit.Leads w ⟨n + 1, .stmt (.throw a value), k⟩ ∧
      evalExpr n value k = .ok (.text e.message) k'
  /-- The same holds if the pass ends with the complaint. -/
  reported : ∀ (e : EvalError) after, e.misplaced = true →
    p.runSource source now = (.error (p.interrupt (.eval (.text e.message))), after) →
    ∃ n a value k k', p.Visits source now ⟨n + 1, .stmt (.throw a value), k⟩ ∧
      evalExpr n value k = .ok (.text e.message) k'
  /-- The next pass starts from a namespace of the same kind. -/
  after : (p.runSource source now).2.ns.Returning

/-- A complaint that ends the pass was raised by a statement, and not by the top level. -/
theorem exists_visit_of_interrupt {payload : Value} {after : Progress ω}
    (hplaced : ∀ before s now', p.Starts source now before s now' → s.WellPlaced)
    (hrun : p.runSource source now = (.error (p.interrupt (.eval payload)), after)) :
    ∃ w m, p.Visits source now w ∧ w.Halts (.raise payload) m := by
  obtain ⟨before, s, now', m, hstarts, hs, -⟩ := starts_failed hrun
  have hhalts := (hplaced before s now' hstarts).halts_of_evaluate hs
  exact ⟨_, m, ⟨before, s, now', hstarts, .refl⟩, hhalts⟩

/-- **Control flow is confined by the text of a program.**

* In every machine, a statement that ends with a jump contains this jump: a `break` or a `continue`
  that is in none of its loops, or a `return`, and none that is in a function inside of it.
* So if the jumps of a source are well placed, they stay where they belong in every pass over it,
  from a new namespace or from one in which such passes have left their functions. -/
theorem jumps_confined :
    (∀ fuel (s : Stmt Unit) m flow m', execStmt fuel s m = .ok flow m' →
      ∀ jump, flow.jump? = some jump → jump ∈ s.jumps) ∧
    Namespace.prelude.Returning ∧
    ∀ {ω : Type} (p : Pass ω) (source : String) (now : Progress ω), now.ns.Returning →
      (∀ program, readProgram source = .ok program → ∀ s ∈ program.code, s.WellPlaced) →
      p.Confined source now := by
  refine ⟨leavesBy_exec, Namespace.holds_prelude _, fun p source now hnow hsource => ?_⟩
  have hcovers : Heredity.returning.Covers source :=
    fun program hprogram s hs => (hsource program hprogram s hs).inside
  have hplaced : ∀ before s now', p.Starts source now before s now' → s.WellPlaced := by
    rintro before s now' ⟨program, rest, hprogram, hcode, -⟩
    exact hsource program hprogram s (hcode ▸ by simp)
  refine ⟨?_, ?_, ?_, ?_, holds_runSource hcovers hnow⟩
  · intro before s now' flow m hstarts hexec
    exact (hplaced before s now' hstarts).next_of_ok hexec
  · intro n f receiver args m c flow m' hvisits hf hbody
    exact Visit.next_or_ret_of_call (hvisits.governs hcovers hnow) hf hbody
  · intro e w m he hvisits hhalts
    exact Visit.exists_throw_of_misplaced (hvisits.governs hcovers hnow) he hhalts
  · intro e after he hrun
    obtain ⟨w, m, hvisits, hhalts⟩ := exists_visit_of_interrupt hplaced hrun
    obtain ⟨n, a, value, k, k', hleads, hvalue⟩ :=
      Visit.exists_throw_of_misplaced (hvisits.governs hcovers hnow) he hhalts
    exact ⟨n, a, value, k, k', hvisits.leads hleads, hvalue⟩

/-- A function with a loop that is left by `break`, and a return after it. -/
def breaking : Stmt Unit :=
  .function () "f" ["x"] [.whileLoop () (.var () "x") [.brk ()], .ret () (some (.var () "x"))]

/-- The function is declared and called. -/
theorem jumps_confined_breaking :
    ∃ program,
      readProgram "function f(x) \x7b while (x) break; return x; \x7d f(true);" = .ok program ∧
      program.code = [breaking, .expr () (.call () (.var () "f") [.boolean () true])] ∧
      (∀ s ∈ program.code, s.WellPlaced) ∧
      (Batch.pass 9).Confined "function f(x) \x7b while (x) break; return x; \x7d f(true);"
        ⟨.prelude, .unlimited, ()⟩ := by
  have htokens :
      TokenStream.ofSource "function f(x) \x7b while (x) break; return x; \x7d f(true);" =
      .ok (.ofTokens [⟨.keyword .function, ⟨0, 8⟩⟩, ⟨.identifier "f", ⟨9, 10⟩⟩,
        ⟨.symbol .leftParen, ⟨10, 11⟩⟩, ⟨.identifier "x", ⟨11, 12⟩⟩,
        ⟨.symbol .rightParen, ⟨12, 13⟩⟩, ⟨.symbol .leftBrace, ⟨14, 15⟩⟩,
        ⟨.keyword .whileWord, ⟨16, 21⟩⟩, ⟨.symbol .leftParen, ⟨22, 23⟩⟩,
        ⟨.identifier "x", ⟨23, 24⟩⟩, ⟨.symbol .rightParen, ⟨24, 25⟩⟩,
        ⟨.keyword .breakWord, ⟨26, 31⟩⟩, ⟨.symbol .semicolon, ⟨31, 32⟩⟩,
        ⟨.keyword .returnWord, ⟨33, 39⟩⟩, ⟨.identifier "x", ⟨40, 41⟩⟩,
        ⟨.symbol .semicolon, ⟨41, 42⟩⟩, ⟨.symbol .rightBrace, ⟨43, 44⟩⟩,
        ⟨.identifier "f", ⟨45, 46⟩⟩, ⟨.symbol .leftParen, ⟨46, 47⟩⟩,
        ⟨.keyword .trueWord, ⟨47, 51⟩⟩, ⟨.symbol .rightParen, ⟨51, 52⟩⟩,
        ⟨.symbol .semicolon, ⟨52, 53⟩⟩] (.endAt 53)) := by rfl
  have hclosed := TokenStream.ofSource_closed htokens
  have hread := readProgram_of_ok htokens
  generalize hs₀ : TokenStream.ofTokens _ _ = s₀ at htokens hclosed hread
  obtain ⟨first, second, s₁, s₂, hmore, hfirst, hmore', hsecond, hend, hdeclared, hcalled⟩ :
      ∃ first second s₁ s₂, s₀.hasRemaining = true ∧ s₀.parseNext = (.ok first, s₁) ∧
        s₁.hasRemaining = true ∧ s₁.parseNext = (.ok second, s₂) ∧ s₂.hasRemaining = false ∧
        first.erase = breaking ∧
        second.erase = .expr () (.call () (.var () "f") [.boolean () true]) := by
    subst hs₀
    exact ⟨_, _, _, _, rfl, rfl, rfl, rfl, rfl, rfl, rfl⟩
  have hcode : (s₀.program hclosed).code =
      [breaking, .expr () (.call () (.var () "f") [.boolean () true])] := by
    rw [TokenStream.program_of_ok hclosed hmore hfirst, TokenStream.program_of_ok _ hmore' hsecond,
      TokenStream.program_of_end _ hend]
    simp only [Program.code, List.map_cons, hdeclared, hcalled, List.map_nil]
  have hplaced : ∀ s ∈ (s₀.program hclosed).code, s.WellPlaced := by
    rw [hcode]
    decide
  refine ⟨_, hread, hcode, hplaced, ?_⟩
  obtain ⟨-, hprelude, hconfined⟩ := jumps_confined
  refine hconfined (Batch.pass 9) _ _ hprelude fun program hprogram => ?_
  cases hread.symm.trans hprogram
  exact hplaced

end Pass

end Script
