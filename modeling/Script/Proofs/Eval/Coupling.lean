import Script.Proofs.Eval.Lockstep

/-!
# Two evaluations side by side

Two evaluations of the same program from machines that differ only in their output take the same
steps.  What is written before does not matter to a program, as long as both outputs accept and
refuse the same writes.  Along the way, both keep whatever the primitive changes of a store keep.

A coupling names what is to be kept: a property of stores, and a relation between outputs.  A
declaration is the one step that adds a name to a scope, so a coupling also names the scopes in
which declarations may be made.  These must include every new scope, and then it does not matter
where a block, a loop, a handler or a function body makes its declarations.

The conditions of a coupling are about primitive changes only.  A coupling is a lock step whose two
stores are the same, and in which both outputs accept the same lines, so nothing parts the two
evaluations: every expression and every statement keeps what the coupling names.

## Main definitions

* `Coupling`: what is to be kept, and why primitive changes keep it.
* `Coupling.Joins`: two machines side by side.
* `Coupling.Couples`: the evaluations that stay side by side.
* `Coupling.lockstep`: the lock step that a coupling is.

## Main results

* `Coupling.couples_evalExpr`, `Coupling.couples_execStmt`: the evaluation of expressions and
  statements stays side by side.
-/

namespace Script

open Eval Outcome

/-- **What two evaluations keep.**  Arrays, maps and functions may change freely; what is said of a
store is about its scopes. -/
structure Coupling where
  /-- What holds of every store. -/
  Inv : Store → Prop
  /-- The scopes in which declarations may be made. -/
  Own : ScopeId → Prop
  /-- How the two outputs compare. -/
  Outputs : Sink → Sink → Prop
  inv_of_scopes_eq : ∀ {σ τ : Store}, Inv σ → τ.scopes = σ.scopes → Inv τ
  inv_newScope : ∀ {σ : Store} (outer : Option ScopeId) (bindings : Dict Value), Inv σ →
    Inv (σ.newScope outer bindings).2
  own_newScope : ∀ {σ : Store} (outer : Option ScopeId) (bindings : Dict Value), Inv σ →
    Own (σ.newScope outer bindings).1
  inv_assign : ∀ {σ : Store} (scope : ScopeId) (name : String) (value : Value), Inv σ →
    Inv (σ.assign scope name value).2
  inv_define : ∀ {σ : Store} {scope : ScopeId} (name : String) (value : Value), Inv σ →
    Own scope → Inv (σ.define scope name value)
  outputs_writeLine : ∀ {a b : Sink} (text : String), Outputs a b →
    (a.writeLine text).1 = (b.writeLine text).1 ∧ Outputs (a.writeLine text).2 (b.writeLine text).2

namespace Coupling

variable {C : Coupling} {here : ScopeId} {α β : Type}

/-- Two machines that stand in the same scope of the same store, with outputs that compare. -/
inductive Joins (C : Coupling) (here : ScopeId) : Machine → Machine → Prop
  | intro {σ a b depth} (hinv : C.Inv σ) (houtputs : C.Outputs a b) :
      Joins C here ⟨σ, a, here, depth⟩ ⟨σ, b, here, depth⟩

/-- From two such machines in the scope `here`, an evaluation comes to the same result or the same
stop, and to two such machines again. -/
def Couples (C : Coupling) (here : ScopeId) (x : Eval α) : Prop :=
  ∀ ⦃m m' : Machine⦄, C.Joins here m m' → Related Eq (C.Joins here) Eq (x m) (x m')

/-! ### The lock step of a coupling -/

/-- **A coupling is a lock step** of machines with the same store. -/
def lockstep (C : Coupling) : Lockstep where
  Stores σ scopes := scopes = σ.scopes ∧ C.Inv σ
  Sinks := C.Outputs
  Own := C.Own
  Names _ := True
  Frozen := False
  size_eq h := congrArg Array.size h.1
  names_of_closure _ _ _ _ := trivial
  lookup_eq _ _ h _ := by rw [h.1, Store.withScopes_self]
  own_newScope h := C.own_newScope none .empty h.2
  stores_newArray _ h := ⟨h.1, C.inv_of_scopes_eq h.2 rfl⟩
  stores_newMap _ h := ⟨h.1, C.inv_of_scopes_eq h.2 rfl⟩
  stores_newFunction _ h _ := ⟨h.1, C.inv_of_scopes_eq h.2 rfl⟩
  stores_newScope outer bindings h :=
    ⟨congrArg (Array.push · ⟨outer, bindings⟩) h.1, C.inv_newScope outer bindings h.2⟩
  stores_define value h hown _ := by
    rw [h.1, Store.withScopes_self]
    exact ⟨rfl, C.inv_define _ value h.2 hown⟩
  stores_assign scope value _ h _ := by
    rw [h.1, Store.withScopes_self]
    exact ⟨rfl, rfl, C.inv_assign scope _ value h.2⟩
  stores_modifyArray _ _ _ h := ⟨h.1, C.inv_of_scopes_eq h.2 rfl⟩
  stores_modifyMap _ _ _ h := ⟨h.1, C.inv_of_scopes_eq h.2 rfl⟩
  sinks_writeLine text h _ := (C.outputs_writeLine text h).2

theorem joins_lockstep {m m' : Machine} : C.lockstep.Joins here m m' ↔ C.Joins here m m' := by
  constructor
  · rintro ⟨⟨rfl, hinv⟩, houtputs⟩
    exact ⟨hinv, houtputs⟩
  · rintro ⟨hinv, houtputs⟩
    exact ⟨⟨rfl, hinv⟩, houtputs⟩

/-- Nothing parts the two evaluations: both outputs accept the same lines. -/
theorem not_parts_lockstep (p : Visit × Visit) : ¬ C.lockstep.Parts p := by
  rintro ⟨q, -, hsplits⟩
  cases hsplits with
  | line hjoins _ _ hline =>
    obtain ⟨-, houtputs⟩ := hjoins
    exact hline (C.outputs_writeLine _ houtputs).1
  | change hfrozen _ => exact hfrozen

theorem related_of_lockstep {r r' : EStateM.Result Stop Machine α}
    (h : Related Eq (C.lockstep.Joins here) Eq r r') : Related Eq (C.Joins here) Eq r r' := by
  cases h with
  | ok hvalue hstate => exact .ok hvalue (joins_lockstep.mp hstate)
  | error herror hstate => exact .error herror (joins_lockstep.mp hstate)

theorem couples_of_agrees {x : Eval α} (h : C.lockstep.Agrees here x) : C.Couples here x :=
  fun _ _ hjoins => related_of_lockstep (h (joins_lockstep.mpr hjoins))

theorem related_of_goes {p : Visit × Visit} {r r' : EStateM.Result Stop Machine α}
    (h : C.lockstep.Goes p here r r') : Related Eq (C.Joins here) Eq r r' := by
  rcases h with hrelated | hparts
  · exact related_of_lockstep hrelated
  · exact absurd hparts (not_parts_lockstep p)

/-! ### Evaluations -/

theorem couples_stop (s : Stop) : C.Couples here (stop s : Eval α) := fun _ _ h => .error rfl h

theorem couples_newClosure (name : Option String) (params : List String)
    (body : List (Stmt Unit)) : C.Couples here (newClosure name params body) :=
  couples_of_agrees (Lockstep.agrees_newClosure name params fun _ _ => trivial)

/-- Expressions stay side by side in every scope. -/
theorem couples_evalExpr (C : Coupling) (here : ScopeId) (fuel : Nat) (e : Expr Unit) :
    C.Couples here (evalExpr fuel e) := by
  intro m m' h
  refine related_of_goes (C.lockstep.follows fuel (.expr e) ?_ (joins_lockstep.mpr h))
  exact .of_quiet (fun _ _ => trivial) rfl

/-- Statements stay side by side in every scope in which they may be run. -/
theorem couples_execStmt (C : Coupling) (here : ScopeId) (fuel : Nat) (s : Stmt Unit)
    (hown : ∀ name, s.declared? = some name → C.Own here) : C.Couples here (execStmt fuel s) := by
  intro m m' h
  refine related_of_goes (C.lockstep.follows fuel (.stmt s) ?_ (joins_lockstep.mpr h))
  refine ⟨fun _ _ => trivial, fun hdeclares => ?_⟩
  obtain ⟨name, hname⟩ := Option.isSome_iff_exists.mp hdeclares
  exact hown name hname

theorem couples_evalOption (fuel : Nat) (e : Option (Expr Unit)) :
    C.Couples here (evalOption (evalExpr fuel) e) := by
  cases e with
  | none => exact fun _ _ h => .ok rfl h
  | some e => exact C.couples_evalExpr here fuel e

/-- **A statement at the top level stays side by side with itself.** -/
theorem couples_evaluate (C : Coupling) (here : ScopeId) (fuel : Nat) (s : Stmt Unit)
    (hown : ∀ name, s.declared? = some name → C.Own here) : C.Couples here (s.evaluate fuel) := by
  intro m m' h
  refine (C.couples_execStmt here fuel s hown h).bind fun flow flow' k k' hflow hk => ?_
  subst hflow
  cases flow with
  | next v => exact .ok rfl hk
  | ret _ | brk | cont => exact .error rfl hk

end Coupling

end Script
