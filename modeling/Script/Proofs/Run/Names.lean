import Script.Proofs.Eval.ScopeFrame
import Script.Proofs.Run.TwoPhase

/-!
# How the names of a namespace grow

A namespace is the scope in which the statements at the top level are run.  So the only statements
that give it a name are the declarations at the top level that are completed, and a name that is new
is put after the others.  No name is ever removed or moved, whatever fails.

## Main definitions

* `introduceAll`: the names of a scope after given statements.
* `Pass.completed`, `Pass.completedIn`: the statements that a pass completes.
* `Session.completed`, `Session.completedIn`: the statements that a session completes.

## Main results

* `Pass.grows_runSource`, `Session.grows_run`: the names after a pass and after a session.
* `names_frame`: which names statements, passes and sessions bind.
-/

namespace Script

open Eval

variable {ω : Type}

/-- The names of a scope after all given statements have been completed in it. -/
def introduceAll (names : List String) (body : List (Stmt Unit)) : List String :=
  body.foldl (fun names s => introduce names s.declared?) names

theorem introduceAll_append (names : List String) (body more : List (Stmt Unit)) :
    introduceAll names (body ++ more) = introduceAll (introduceAll names body) more :=
  List.foldl_append

theorem introduceAll_extends (names : List String) (body : List (Stmt Unit)) :
    names <+: introduceAll names body := by
  induction body generalizing names with
  | nil => exact List.prefix_rfl
  | cons s body ih => exact (introduce_extends names s.declared?).trans (ih _)

namespace Namespace

/-- The scope of the namespace is one of its store. -/
def Rooted (ns : Namespace) : Prop := ns.store.HasScope ns.root

instance (ns : Namespace) : Decidable ns.Rooted :=
  inferInstanceAs (Decidable (ns.store.HasScope ns.root))

/-- The namespace `ns'` is what `ns` becomes when the given statements are completed in it. -/
structure Grows (ns : Namespace) (body : List (Stmt Unit)) (ns' : Namespace) : Prop where
  names : ns'.names = introduceAll ns.names body
  rooted : ns'.Rooted

theorem Grows.refl {ns : Namespace} (h : ns.Rooted) : ns.Grows [] ns := ⟨rfl, h⟩

theorem Grows.of_eq {ns ns' : Namespace} (heq : ns' = ns) (h : ns.Rooted) : ns.Grows [] ns' := by
  subst heq
  exact .refl h

/-- No name is removed or moved. -/
theorem Grows.extends {ns ns' : Namespace} {body : List (Stmt Unit)} (h : ns.Grows body ns') :
    ns.names <+: ns'.names := by
  rw [h.names]
  exact introduceAll_extends ns.names body

theorem Grows.trans {ns₁ ns₂ ns₃ : Namespace} {body more : List (Stmt Unit)}
    (h : ns₁.Grows body ns₂) (h' : ns₂.Grows more ns₃) : ns₁.Grows (body ++ more) ns₃ := by
  refine ⟨?_, h'.rooted⟩
  rw [h'.names, h.names, introduceAll_append]

end Namespace

/-! ## Passes -/

namespace Pass

/-- The statements that a pass completes.  Where the observer fails, the statement that it was shown
is the last one. -/
def completed (p : Pass ω) : List (Stmt Unit) → Progress ω → List (Stmt Unit)
  | [], _ => []
  | s :: rest, now =>
    match s.evaluate p.fuel (machine now) with
    | .error _ _ => []
    | .ok value m =>
      match p.observe value (resume now m) with
      | (.error _, _) => [s]
      | (.ok (), now) => s :: p.completed rest now

/-- The statements of a source that a pass completes. -/
def completedIn (p : Pass ω) (source : String) (now : Progress ω) : List (Stmt Unit) :=
  match readProgram source with
  | .error _ => []
  | .ok program => p.completed program.code now

/-- A statement that is completed introduces the name that it declares. -/
theorem grows_of_ok {p : Pass ω} {s : Stmt Unit} {now : Progress ω} {value : Value} {m : Machine}
    (hroot : now.ns.Rooted) (h : s.evaluate p.fuel (machine now) = .ok value m) :
    now.ns.Grows [s] (resume now m).ns := by
  have hdeclares := (declaring_evaluate (m := machine now) p.fuel s hroot).of_ok h
  exact ⟨hdeclares.own, Nat.lt_of_lt_of_le hroot hdeclares.size⟩

/-- A statement that stops introduces no name. -/
theorem grows_of_error {p : Pass ω} {s : Stmt Unit} {now : Progress ω} {stop : Stop} {m : Machine}
    (hroot : now.ns.Rooted) (h : s.evaluate p.fuel (machine now) = .error stop m) :
    now.ns.Grows [] (resume now m).ns := by
  have hdeclares := (declaring_evaluate (m := machine now) p.fuel s hroot).of_error h
  exact ⟨hdeclares.own, Nat.lt_of_lt_of_le hroot hdeclares.size⟩

/-- The names after the statements of a program. -/
theorem grows_runStatements (p : Pass ω) (ending : Except Error Flow) (body : List (Stmt Unit))
    {now : Progress ω} (hroot : now.ns.Rooted) :
    now.ns.Grows (p.completed body now) (p.runStatements ending body now).2.ns := by
  induction body generalizing now with
  | nil => exact .refl hroot
  | cons s body ih =>
    unfold completed runStatements
    cases hs : s.evaluate p.fuel (machine now) with
    | error stop m => exact grows_of_error hroot hs
    | ok value m =>
      have hstep := grows_of_ok hroot hs
      rw [← p.ns_observe value (resume now m)] at hstep
      rcases hseen : p.observe value (resume now m) with ⟨_ | _, now'⟩
      · rw [hseen] at hstep
        simp only [hseen]
        exact hstep
      · rw [hseen] at hstep
        simp only [hseen]
        exact hstep.trans (ih hstep.rooted)

/-- The names after a pass over a source. -/
theorem grows_runSource (p : Pass ω) (source : String) (now : Progress ω)
    (hroot : now.ns.Rooted) :
    now.ns.Grows (p.completedIn source now) (p.runSource source now).2.ns := by
  rw [runSource_eq_runStatements, completedIn]
  cases readProgram source with
  | error e => exact .refl hroot
  | ok program => exact p.grows_runStatements _ program.code hroot

end Pass

/-! ## Sessions -/

namespace Session

/-- The statements of the lines of an input that a session completes. -/
def completed (fuel : Nat) : List (List UInt8) → Session → List (Stmt Unit)
  | [], _ => []
  | line :: rest, s =>
    match s.emit [prompt] with
    | (.error _, _) => []
    | (.ok (), s) =>
      match decodeLine? line with
      | none => []
      | some text =>
        (pass fuel).completedIn text ⟨s.ns, s.out, ()⟩ ++
          match s.evalLine fuel text with
          | (.ok .exhausted, s) => completed fuel rest s
          | _ => []

/-- The statements of an input that a session completes. -/
def completedIn (fuel : Nat) (input : List UInt8) (s : Session) : List (Stmt Unit) :=
  match s.emit [banner, "\n"] with
  | (.error _, _) => []
  | (.ok (), s) => s.completed fuel (splitLines input)

/-- Writing leaves the namespace alone. -/
theorem ns_of_emit {texts : List String} {s s' : Session} {result : Except Error Unit}
    (h : s.emit texts = (result, s')) : s'.ns = s.ns := by
  induction texts generalizing s with
  | nil =>
    cases h
    rfl
  | cons text rest ih =>
    unfold emit at h
    split at h
    · have hrest := ih h
      exact hrest
    · cases h
      rfl

/-- A report leaves the namespace alone. -/
theorem ns_evalLine (fuel : Nat) (line : String) (s : Session) :
    (s.evalLine fuel line).2.ns = ((pass fuel).runSource line ⟨s.ns, s.out, ()⟩).2.ns := by
  unfold evalLine
  generalize (pass fuel).runSource line ⟨s.ns, s.out, ()⟩ = ran
  obtain ⟨result, now⟩ := ran
  simp only
  split <;> rfl

theorem grows_evalLine (fuel : Nat) (line : String) {s : Session} (hroot : s.ns.Rooted) :
    s.ns.Grows ((pass fuel).completedIn line ⟨s.ns, s.out, ()⟩) (s.evalLine fuel line).2.ns := by
  rw [ns_evalLine]
  exact (pass fuel).grows_runSource line ⟨s.ns, s.out, ()⟩ hroot

/-- The names after the lines of an input. -/
theorem grows_runLines (fuel : Nat) (lines : List (List UInt8)) {s : Session}
    (hroot : s.ns.Rooted) :
    s.ns.Grows (completed fuel lines s) (s.runLines fuel lines).2.ns := by
  induction lines generalizing s with
  | nil =>
    unfold runLines completed
    rcases hemit : s.emit [prompt, "\n"] with ⟨_ | _, s₁⟩
    · exact .of_eq (ns_of_emit hemit) hroot
    · exact .of_eq (ns_of_emit hemit) hroot
  | cons line rest ih =>
    unfold runLines completed answer
    rcases hemit : s.emit [prompt] with ⟨_ | _, s₁⟩
    · exact .of_eq (ns_of_emit hemit) hroot
    · have hns : s₁.ns = s.ns := ns_of_emit hemit
      rw [← hns] at hroot ⊢
      simp only [respond]
      cases decodeLine? line with
      | none => exact .refl hroot
      | some text =>
        have hline := grows_evalLine fuel text hroot
        rcases hanswer : s₁.evalLine fuel text with ⟨_ | (_ | code), s₂⟩
        all_goals
          rw [hanswer] at hline
          simp only [hanswer]
        · rw [List.append_nil]
          exact hline
        · exact hline.trans (ih hline.rooted)
        · rw [List.append_nil]
          exact hline

/-- The names after a session. -/
theorem grows_run (fuel : Nat) (input : List UInt8) {s : Session} (hroot : s.ns.Rooted) :
    s.ns.Grows (s.completedIn fuel input) (s.run fuel input).2.ns := by
  unfold run completedIn
  rcases hemit : s.emit [banner, "\n"] with ⟨_ | _, s₁⟩
  · exact .of_eq (ns_of_emit hemit) hroot
  · have hns : s₁.ns = s.ns := ns_of_emit hemit
    rw [← hns] at hroot ⊢
    exact grows_runLines fuel _ hroot

end Session

/-! ## The frame -/

/-- **Which names are bound where.**

* A statement that is run in a scope leaves the names of all other scopes that there are, and their
  order.  In its own scope it does so too, except that a declaration that is completed puts its name
  after the others if it is new.
* After a pass, a batch run or a session, with whatever failures, the names of the namespace are
  those that were there, and then the new ones among those that were declared by the statements at
  the top level that were completed.
* A statement at the top level that raises or exits leaves the names as they were. -/
theorem names_frame :
    (∀ fuel s (m : Machine), m.store.HasScope m.scope →
      (∀ flow m', execStmt fuel s m = .ok flow m' →
        m.store.Declares m.scope s.declared? m'.store) ∧
      ∀ stop m', execStmt fuel s m = .error stop m' → m.store.Declares m.scope none m'.store) ∧
    (∀ {ω : Type} (p : Pass ω) source (now : Progress ω), now.ns.Rooted →
      now.ns.Grows (p.completedIn source now) (p.runSource source now).2.ns ∧
      now.ns.names <+: (p.runSource source now).2.ns.names) ∧
    (∀ fuel source (b : Batch), b.ns.Rooted →
      b.ns.Grows ((Batch.pass fuel).completedIn source ⟨b.ns, b.sink, ()⟩)
        (b.runSource fuel source).2.ns ∧
      b.ns.names <+: (b.runSource fuel source).2.ns.names) ∧
    (∀ fuel input (s : Session), s.ns.Rooted →
      s.ns.Grows (s.completedIn fuel input) (s.run fuel input).2.ns ∧
      s.ns.names <+: (s.run fuel input).2.ns.names) ∧
    (∀ {ω : Type} (p : Pass ω) (s : Stmt Unit) (now : Progress ω) stop m,
      now.ns.Rooted →
      s.evaluate p.fuel (Pass.machine now) = .error stop m →
      (Pass.resume now m).ns.names = now.ns.names) := by
  refine ⟨?_, ?_, ?_, ?_, ?_⟩
  · intro fuel s m hhere
    have hdeclaring := declaring_exec fuel s hhere
    exact ⟨fun _ _ => hdeclaring.of_ok, fun _ _ => hdeclaring.of_error⟩
  · intro ω p source now hroot
    have hgrows := p.grows_runSource source now hroot
    exact ⟨hgrows, hgrows.extends⟩
  · intro fuel source b hroot
    have hgrows := (Batch.pass fuel).grows_runSource source ⟨b.ns, b.sink, ()⟩ hroot
    exact ⟨hgrows, hgrows.extends⟩
  · intro fuel input s hroot
    have hgrows := Session.grows_run fuel input hroot
    exact ⟨hgrows, hgrows.extends⟩
  · intro ω p s now stop m hroot hstop
    exact (Pass.grows_of_error hroot hstop).names

/-- The third statement raises an error, so its name and that of the fourth are not bound. -/
theorem names_frame_raising :
    let source := "let x = true; let y = x; let w = z; let v = x;"
    Namespace.prelude.Rooted ∧
      Namespace.prelude.names <+: (Batch.start.runSource 9 source).2.ns.names ∧
      (Batch.start.runSource 9 source).2.ns.names = ["println", "exit", "x", "y"] := by
  intro source
  have hroot : Batch.start.ns.Rooted := by decide
  exact ⟨hroot, (names_frame.2.2.1 9 source Batch.start hroot).2, by decide +kernel⟩

end Script
