import Script.Proofs.Eval.Coupling
import Script.Run.Pass

/-!
# What is written does not depend on what was written

A program cannot read its output.  On a sink that accepts every write, what a statement does is
therefore the same whatever the sink already holds: the same value or the same stop, the same store,
and the same text behind the text that was there.

## Main definitions

* `Sink.holding`: a sink that accepts every write.
* `Stmt.effect`: what a statement at the top level does in a namespace, and what it writes.

## Main results

* `Stmt.evaluate_of_effect`: a statement has its effect behind any text.
-/

namespace Script

open Eval Outcome

namespace Sink

/-- A sink that accepts every write and holds the given text. -/
def holding (text : String) : Sink := ⟨text, none⟩

theorem eq_holding {s : Sink} (h : s.limit = none) : s = holding s.stored := by
  cases s
  cases h
  rfl

@[simp] theorem write_holding (stored text : String) :
    (holding stored).write text = (true, holding (stored ++ text)) := by
  simp [write, accepts, holding]

@[simp] theorem writeLine_holding (stored text : String) :
    (holding stored).writeLine text = (true, holding (stored ++ (text ++ "\n"))) := by
  simp [writeLine, String.append_assoc]

end Sink

/-- Two outputs that held the texts `a` and `b` at the start, and to which the same has been written
since. -/
def writing (a b : String) : Coupling where
  Inv _ := True
  Own _ := True
  Outputs s t := ∃ written, s = .holding (a ++ written) ∧ t = .holding (b ++ written)
  inv_of_scopes_eq _ _ := trivial
  inv_newScope _ _ _ := trivial
  own_newScope _ _ _ := trivial
  inv_assign _ _ _ _ := trivial
  inv_define _ _ _ _ := trivial
  outputs_writeLine := by
    rintro _ _ text ⟨written, rfl, rfl⟩
    simp only [Sink.writeLine_holding, true_and]
    exact ⟨written ++ (text ++ "\n"), by rw [String.append_assoc], by rw [String.append_assoc]⟩

/-- What a statement comes to, the namespace after it, and what it has written. -/
structure Effect where
  result : Except Stop Value
  ns : Namespace
  printed : String

/-- What a statement does in a namespace, and what it writes to a sink that accepts every write. -/
def Stmt.effect (fuel : Nat) (s : Stmt Unit) (ns : Namespace) : Effect :=
  match s.evaluate fuel ⟨ns.store, .holding "", ns.root, 0⟩ with
  | .ok value m => ⟨.ok value, { ns with store := m.store }, m.sink.stored⟩
  | .error stop m => ⟨.error stop, { ns with store := m.store }, m.sink.stored⟩

/-- The outcome of a statement at the top level whose effect is `e`, for a pass that stood at
`now`. -/
def Effect.Happens {ω : Type} (e : Effect) (now : Progress ω)
    (outcome : EStateM.Result Stop Machine Value) : Prop :=
  ∃ m, Pass.resume now m = ⟨e.ns, .holding (now.sink.stored ++ e.printed), now.seen⟩ ∧
    match e.result with
    | .ok value => outcome = .ok value m
    | .error stop => outcome = .error stop m

/-- **A statement has its effect behind any text.** -/
theorem Stmt.evaluate_of_effect {ω : Type} (fuel : Nat) (s : Stmt Unit) {now : Progress ω}
    (hsink : now.sink.limit = none) :
    (s.effect fuel now.ns).Happens now (s.evaluate fuel (Pass.machine now)) := by
  obtain ⟨ns, sink, seen⟩ := now
  obtain ⟨text, rfl⟩ : ∃ text, sink = .holding text := ⟨_, Sink.eq_holding hsink⟩
  have hcouples := (writing "" text).couples_evaluate ns.root fuel s fun _ _ => trivial
  have hstart : (writing "" text).Outputs (.holding "") (.holding text) := ⟨"", by simp⟩
  have hboth := hcouples (.intro trivial hstart : (writing "" text).Joins ns.root
    ⟨ns.store, .holding "", ns.root, 0⟩ ⟨ns.store, .holding text, ns.root, 0⟩)
  unfold Stmt.effect Pass.machine
  generalize s.evaluate fuel ⟨ns.store, .holding "", ns.root, 0⟩ = r at hboth ⊢
  generalize s.evaluate fuel ⟨ns.store, .holding text, ns.root, 0⟩ = r' at hboth ⊢
  cases hboth with
  | ok hvalue hstate =>
    obtain ⟨-, written, rfl, rfl⟩ := hstate
    subst hvalue
    exact ⟨_, by simp [Pass.resume, Sink.holding], rfl⟩
  | error herror hstate =>
    obtain ⟨-, written, rfl, rfl⟩ := hstate
    subst herror
    exact ⟨_, by simp [Pass.resume, Sink.holding], rfl⟩

end Script
