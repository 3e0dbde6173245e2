import Script.Proofs.Eval.Coupling
import Script.Proofs.Eval.Keeping

/-!
# Which names a statement may bind

A statement binds names in the scopes that it makes itself.  In the scopes that were there before,
it may change the values of names, but not the names, with one exception: a declaration that is
completed binds its name in the scope in which it stands.  This holds however the statement ends,
and whatever functions it calls.

## Main definitions

* `Store.namesIn`: the names that a scope binds, in order.
* `Store.Frame`: the scopes that were there before bind what they did.
* `Store.Declares`: the same, except that one scope has been given a name.

## Main results

* `declaring_exec`, `declaring_evaluate`: what a statement does to the names of the scopes that were
  there before.
-/

namespace Script

open Eval Outcome

namespace Store

variable {σ τ υ : Store} {here t : ScopeId} {name : String}

/-! ## The names of a scope -/

/-- The names that a scope binds, in the order of their first definitions. -/
def namesIn (σ : Store) (t : ScopeId) : List String := (σ.bindings t).keys

/-- The store has the scope. -/
def HasScope (σ : Store) (t : ScopeId) : Prop := t.index < σ.scopes.size

instance (σ : Store) (t : ScopeId) : Decidable (σ.HasScope t) :=
  inferInstanceAs (Decidable (t.index < σ.scopes.size))

theorem bindings_eq_of_scopes_eq (h : τ.scopes = σ.scopes) (t : ScopeId) :
    τ.bindings t = σ.bindings t := by
  simp [bindings, scope?, h]

theorem bindings_newScope (outer : Option ScopeId) (bindings : Dict Value) (h : σ.HasScope t) :
    (σ.newScope outer bindings).2.bindings t = σ.bindings t := by
  have hlt : t.index ≠ σ.scopes.size := Nat.ne_of_lt h
  simp [Store.bindings, scope?, newScope, Array.getElem?_push, hlt]

theorem bindings_define_of_ne (name : String) (value : Value) (h : t ≠ here) :
    (σ.define here name value).bindings t = σ.bindings t := by
  have hindex : here.index ≠ t.index := by
    intro heq
    exact h (congrArg ScopeId.mk heq.symm)
  simp [bindings, scope?, define, Array.getElem?_modify, hindex]

theorem bindings_define_self (name : String) (value : Value) (h : σ.HasScope here) :
    (σ.define here name value).bindings here = (σ.bindings here).insert name value := by
  unfold HasScope at h
  simp [bindings, scope?, define, Array.getElem_modify, h]

@[simp] theorem size_scopes_define (here : ScopeId) (name : String) (value : Value) :
    (σ.define here name value).scopes.size = σ.scopes.size := by
  simp [define]

/-- The scope that a name belongs to binds the name. -/
theorem mem_namesIn_of_resolveWithin {limit : Nat} {owner : ScopeId}
    (h : σ.resolveWithin name limit here = some owner) : name ∈ σ.namesIn owner := by
  induction limit generalizing here with
  | zero => simp [resolveWithin] at h
  | succ limit ih =>
    unfold resolveWithin at h
    split at h
    · cases h
    · next scope hscope =>
      split at h
      · next hcontains =>
        cases h
        rw [namesIn, bindings, hscope]
        exact Dict.contains_iff.mp hcontains
      · split at h
        · cases h
        · exact ih h

/-- **A name is bound at most once.**  A definition puts a name that is new to its scope after the
others, and leaves other scopes alone. -/
theorem namesIn_define (name : String) (value : Value) (h : σ.HasScope t) :
    (σ.define here name value).namesIn t =
      if t = here ∧ name ∉ σ.namesIn here then σ.namesIn t ++ [name] else σ.namesIn t := by
  by_cases ht : t = here
  · subst ht
    rw [namesIn, bindings_define_self name value h, Dict.keys_insert]
    simp only [true_and, namesIn]
    split <;> simp_all
  · rw [namesIn, bindings_define_of_ne name value ht, if_neg (fun hboth => ht hboth.1), namesIn]

/-! ## Frames -/

/-- The scopes of `σ` are still there in `τ`, and bind the same names in the same order. -/
structure Frame (σ τ : Store) : Prop where
  size : σ.scopes.size ≤ τ.scopes.size
  names : ∀ t, σ.HasScope t → τ.namesIn t = σ.namesIn t

namespace Frame

theorem refl (σ : Store) : σ.Frame σ := ⟨Nat.le_refl _, fun _ _ => rfl⟩

theorem hasScope (h : σ.Frame τ) (ht : σ.HasScope t) : τ.HasScope t := Nat.lt_of_lt_of_le ht h.size

theorem trans (h : σ.Frame τ) (h' : τ.Frame υ) : σ.Frame υ := by
  refine ⟨Nat.le_trans h.size h'.size, fun t ht => ?_⟩
  rw [h'.names t (h.hasScope ht), h.names t ht]

theorem of_scopes_eq (h : τ.scopes = σ.scopes) : σ.Frame τ := by
  refine ⟨Nat.le_of_eq (congrArg Array.size h.symm), fun t _ => ?_⟩
  rw [namesIn, bindings_eq_of_scopes_eq h, namesIn]

theorem newScope (σ : Store) (outer : Option ScopeId) (bindings : Dict Value) :
    σ.Frame (σ.newScope outer bindings).2 := by
  refine ⟨by simp [Store.newScope], fun t ht => ?_⟩
  rw [namesIn, bindings_newScope outer bindings ht, namesIn]

/-- An assignment finds the name bound. -/
theorem assign (σ : Store) (here : ScopeId) (name : String) (value : Value) :
    σ.Frame (σ.assign here name value).2 := by
  unfold Store.assign
  cases hresolve : σ.resolve? here name with
  | none => exact .refl σ
  | some owner =>
    have hbound : name ∈ σ.namesIn owner := mem_namesIn_of_resolveWithin hresolve
    refine ⟨by simp, fun t ht => ?_⟩
    rw [namesIn_define name value ht, if_neg (fun hboth => hboth.2 hbound)]

/-- A definition in a later scope. -/
theorem define (h : σ.Frame τ) (hhere : ¬ σ.HasScope here) (name : String) (value : Value) :
    σ.Frame (τ.define here name value) := by
  refine ⟨by simpa using h.size, fun t ht => ?_⟩
  have hne : t ≠ here := by
    rintro rfl
    exact hhere ht
  rw [namesIn_define name value (h.hasScope ht), if_neg (fun hboth => hne hboth.1), h.names t ht]

end Frame

/-- The coupling that keeps the names of all scopes of a store. -/
def framing (σ : Store) : Coupling where
  Inv τ := σ.Frame τ
  Own here := ¬ σ.HasScope here
  Outputs := Eq
  inv_of_scopes_eq h hscopes := h.trans (.of_scopes_eq hscopes)
  inv_newScope outer bindings h := h.trans (.newScope _ outer bindings)
  own_newScope _ _ h := Nat.not_lt.mpr h.size
  inv_assign here name value h := h.trans (.assign _ here name value)
  inv_define name value h hhere := h.define hhere name value
  outputs_writeLine _ h := ⟨by rw [h], by rw [h]⟩

end Store

/-- The names of a scope after a declaration: a new name is put after the others. -/
def introduce (names : List String) : Option String → List String
  | none => names
  | some name => if name ∈ names then names else names ++ [name]

/-- The names that are there stay where they are. -/
theorem introduce_extends (names : List String) (declared : Option String) :
    names <+: introduce names declared := by
  unfold introduce
  split
  · exact List.prefix_rfl
  · split
    · exact List.prefix_rfl
    · exact List.prefix_append _ _

/-- The scopes of `σ` are still there in `τ`, and bind the same names in the same order, except that
a name may have been declared in the scope `here`. -/
structure Store.Declares (σ : Store) (here : ScopeId) (declared : Option String) (τ : Store) :
    Prop where
  size : σ.scopes.size ≤ τ.scopes.size
  others : ∀ t, σ.HasScope t → t ≠ here → τ.namesIn t = σ.namesIn t
  own : τ.namesIn here = introduce (σ.namesIn here) declared

/-! ## Evaluations -/

variable {α : Type} {here : ScopeId} {m m' : Machine}

/-- A machine side by side with itself. -/
theorem joins_self (m : Machine) : m.store.framing.Joins m.scope m m := ⟨.refl m.store, rfl⟩

/-- An evaluation that stays side by side with itself keeps the frame. -/
theorem Store.Frame.of_couples {x : Eval α} (hx : m.store.framing.Couples m.scope x) :
    m.store.Frame (after x m).store := by
  have hrun := hx (joins_self m)
  unfold after
  generalize x m = r at hrun
  cases hrun with
  | ok _ hstate =>
    obtain ⟨hinv, -⟩ := hstate
    exact hinv
  | error _ hstate =>
    obtain ⟨hinv, -⟩ := hstate
    exact hinv

theorem Store.Frame.declares_none {σ τ : Store} (h : σ.Frame τ) (hhere : σ.HasScope here) :
    σ.Declares here none τ :=
  ⟨h.size, fun t ht _ => h.names t ht, h.names here hhere⟩

/-- A definition after an evaluation that keeps the frame. -/
theorem Store.Frame.declares_define {σ τ : Store} (h : σ.Frame τ) (hhere : σ.HasScope here)
    (name : String) (value : Value) : σ.Declares here (some name) (τ.define here name value) := by
  refine ⟨by simpa using h.size, fun t ht hne => ?_, ?_⟩
  · rw [Store.namesIn_define name value (h.hasScope ht), if_neg (fun hboth => hne hboth.1),
      h.names t ht]
  · rw [Store.namesIn_define name value (h.hasScope hhere), h.names here hhere, introduce]
    split <;> simp_all

/-- What becomes of the names when an evaluation ends: a name is declared if it is completed, and
none otherwise. -/
def Declaring (declared : Option String) (x : Eval α) (m : Machine) : Prop :=
  match x m with
  | .ok _ m' => m.store.Declares m.scope declared m'.store
  | .error _ m' => m.store.Declares m.scope none m'.store

theorem Declaring.of_ok {declared : Option String} {x : Eval α} {a : α}
    (h : Declaring declared x m) (hx : x m = .ok a m') :
    m.store.Declares m.scope declared m'.store := by
  unfold Declaring at h
  rwa [hx] at h

theorem Declaring.of_error {declared : Option String} {x : Eval α} {stop : Stop}
    (h : Declaring declared x m) (hx : x m = .error stop m') :
    m.store.Declares m.scope none m'.store := by
  unfold Declaring at h
  rwa [hx] at h

theorem declaring_none_of_couples {x : Eval α} (hx : m.store.framing.Couples m.scope x)
    (hhere : m.store.HasScope m.scope) : Declaring none x m := by
  have hframe := Store.Frame.of_couples hx
  unfold Declaring
  cases hrun : x m with
  | ok a m' =>
    rw [after_of_ok hrun] at hframe
    exact hframe.declares_none hhere
  | error stop m' =>
    rw [after_of_error hrun] at hframe
    exact hframe.declares_none hhere

/-- A declaration evaluates the value that it declares, and then binds the name to it. -/
theorem declaring_define {x : Eval Value} {f : Value → α}
    (hx : m.store.framing.Couples m.scope x) (hhere : m.store.HasScope m.scope) (name : String) :
    Declaring (some name) (do let v ← x; define name v; return f v) m := by
  have hnone := declaring_none_of_couples hx hhere
  have hrun := hx (joins_self m)
  unfold Declaring at hnone ⊢
  cases hxm : x m with
  | ok v m₁ =>
    rw [hxm] at hrun
    cases hrun with
    | ok _ hstate =>
      -- the value was found in the scope in which the name is bound
      obtain ⟨hframe, -⟩ := hstate
      rw [bind_of_ok hxm]
      exact hframe.declares_define hhere name v
  | error stop m₁ =>
    rw [hxm] at hnone
    rw [bind_of_error hxm]
    exact hnone

/-- What a declaration does, in terms of the evaluation of the value that it declares. -/
theorem execStmt_of_declared {s : Stmt Unit} {name : String} (fuel : Nat)
    (h : s.declared? = some name) :
    ∃ x : Eval Value, (∀ (C : Coupling) here, C.Couples here x) ∧
      execStmt fuel s = (do let v ← x; define name v; return .next v) := by
  cases fuel with
  | zero => exact ⟨stop .outOfFuel, fun _ _ => Coupling.couples_stop _, rfl⟩
  | succ fuel =>
    cases s with
    | letVar a name' init =>
      cases h
      refine ⟨evalOption (evalExpr fuel) init, fun _ _ => ?_, rfl⟩
      exact Coupling.couples_evalOption fuel init
    | function a name' params body =>
      cases h
      exact ⟨newClosure (some name) params body, fun _ _ => Coupling.couples_newClosure _ _ _, rfl⟩
    | expr | block | ifElse | whileLoop | forEach | tryCatch | throw | ret | brk | cont => cases h

/-- **What a statement does to the names of the scopes that were there before.** -/
theorem declaring_exec (fuel : Nat) (s : Stmt Unit) (hhere : m.store.HasScope m.scope) :
    Declaring s.declared? (execStmt fuel s) m := by
  cases hdeclared : s.declared? with
  | none =>
    have hcouples := m.store.framing.couples_execStmt m.scope fuel s (by simp [hdeclared])
    exact declaring_none_of_couples hcouples hhere
  | some name =>
    obtain ⟨x, hx, hexec⟩ := execStmt_of_declared fuel hdeclared
    rw [hexec]
    exact declaring_define (hx _ _) hhere name

/-- **A statement at the top level does the same.**  What leaves it without a value is no
declaration. -/
theorem declaring_evaluate (fuel : Nat) (s : Stmt Unit) (hhere : m.store.HasScope m.scope) :
    Declaring s.declared? (s.evaluate fuel) m := by
  cases hdeclared : s.declared? with
  | none =>
    have hcouples := m.store.framing.couples_evaluate m.scope fuel s (by simp [hdeclared])
    exact declaring_none_of_couples hcouples hhere
  | some name =>
    obtain ⟨x, hx, hexec⟩ := execStmt_of_declared fuel hdeclared
    have hevaluate : s.evaluate fuel = (do let v ← x; define name v; return v) := by
      simp only [Stmt.evaluate, hexec, bind_assoc, pure_bind, Completion.topLevel]
    rw [hevaluate]
    exact declaring_define (hx _ _) hhere name

end Script
