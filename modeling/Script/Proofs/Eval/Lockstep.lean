import Script.Proofs.Eval.Visit
import Script.Proofs.Tree.Names

/-!
# Two evaluations in lock step

One program is run twice, from two machines that have the same arrays, maps and functions, and that
may differ in their scopes and in their outputs.  As long as the names that the program uses mean
the same in both, and both outputs answer alike, the two evaluations enter the same visits, and come
to the same result or the same stop.

They can part in two ways only.  One output may refuse a line that the other one accepts.  And a
lock step may be frozen: it then follows the evaluations up to the first visit that changes
something that is already there, which is an assignment or a method that changes an array.

The conditions of a lock step are about primitive changes of stores and outputs.  From them it
follows, once for all lock steps, that two evaluations stay together until they part.

## Main definitions

* `Lockstep`: what two evaluations keep, and why primitive changes keep it.
* `Visit.Together`: the same steps, taken by two visits.
* `Lockstep.Splits`, `Lockstep.Parts`: the visits at which two evaluations part.
* `Lockstep.Goes`: two outcomes correspond, unless the evaluations have parted.

## Main results

* `Lockstep.follows`: every task stays in lock step until the evaluations part.
-/

namespace Script

open Eval Outcome

/-! ## Stores that differ in their scopes -/

namespace Store

variable (σ : Store) (scopes : Array Scope)

/-- The store with other scopes. -/
def withScopes : Store := { σ with scopes := scopes }

@[simp] theorem withScopes_self : σ.withScopes σ.scopes = σ := rfl

/-- The text of a value does not depend on scopes. -/
theorem render_withScopes (depth : Nat) (around : List Container) (nested : Bool) (v : Value) :
    (σ.withScopes scopes).render depth around nested v = σ.render depth around nested v := by
  induction depth generalizing around nested v with
  | zero =>
    cases v with
    | undefined | boolean _ | number _ | text _ | array _ | map _ => simp [render]
    | function f =>
      simp only [render]
      rfl
  | succ depth ih =>
    have hrender : ∀ around nested,
        (σ.withScopes scopes).render depth around nested = σ.render depth around nested := by
      intro around nested
      funext v
      exact ih around nested v
    cases v with
    | undefined | boolean _ | number _ | text _ => simp [render]
    | function f =>
      simp only [render]
      rfl
    | array a | map a =>
      simp only [render, hrender]
      rfl

@[simp] theorem display_withScopes (v : Value) : (σ.withScopes scopes).display v = σ.display v :=
  σ.render_withScopes scopes _ _ _ v

theorem equalWithin_withScopes (depth : Nat) (pending : List Comparison) (x y : Value) :
    (σ.withScopes scopes).equalWithin depth pending x y = σ.equalWithin depth pending x y := by
  induction depth generalizing pending x y with
  | zero => cases x <;> cases y <;> simp [equalWithin]
  | succ depth ih =>
    have hequal : ∀ pending,
        (σ.withScopes scopes).equalWithin depth pending = σ.equalWithin depth pending := by
      intro pending
      funext x y
      exact ih pending x y
    cases x <;> cases y <;> simp only [equalWithin, hequal] <;> rfl

@[simp] theorem equal_withScopes (x y : Value) :
    (σ.withScopes scopes).equal x y = σ.equal x y :=
  σ.equalWithin_withScopes scopes _ _ x y

/-- Operators do not look at scopes. -/
@[simp] theorem apply_withScopes (op : BinaryOp) (x y : Value) :
    op.apply (σ.withScopes scopes) x y = op.apply σ x y := by
  cases op <;> simp [BinaryOp.apply]

@[simp] theorem items_withScopes (v : Value) : (σ.withScopes scopes).items v = σ.items v := by
  cases v <;> rfl

end Store

/-! ## Calls of function objects -/

section Calls

variable {exec : Stmt Unit → Eval Completion} {m : Machine} {f : FunctionId}
variable {receiver : Option Value} {args : List Value}

theorem call_of_native {native : Native} (hf : m.store.function? f = some (.native native)) :
    Eval.call exec (.function f) receiver args m = native.call receiver args m := by
  have hstore : getStore m = .ok m.store m := rfl
  refine (bind_of_ok hstore).trans ?_
  rw [hf]

theorem call_of_closure {c : Closure} (hf : m.store.function? f = some (.closure c)) :
    Eval.call exec (.function f) receiver args m = callClosure exec c args m := by
  have hstore : getStore m = .ok m.store m := rfl
  refine (bind_of_ok hstore).trans ?_
  rw [hf]

theorem call_of_none (hf : m.store.function? f = none) :
    Eval.call exec (.function f) receiver args m = .error (.fault .missingFunction) m := by
  have hstore : getStore m = .ok m.store m := rfl
  refine (bind_of_ok hstore).trans ?_
  rw [hf]
  rfl

end Calls

/-- The line that a call with the given arguments prints. -/
def printed (σ : Store) (args : List Value) : String := (args.head?.map σ.display).getD ""

/-- The methods that change what they are called on. -/
def Native.changes : Native → Bool
  | push | pop => true
  | _ => false

/-! ## Lock steps -/

namespace Visit

/-- A visit that changes something that is already there: an assignment, or a call of a method that
changes an array. -/
inductive Writes : Visit → Prop
  | place {n value target m} : Writes ⟨n, .place value target, m⟩
  | method {n f native receiver args m} (hf : m.store.function? f = some (.native native))
      (hnative : native.changes = true) : Writes ⟨n, .call (.function f) receiver args, m⟩

/-- Two visits enter two others by the same step. -/
def Both (p q : Visit × Visit) : Prop :=
  (Enters p.1 q.1 ∧ Enters p.2 q.2) ∨ (Tries p.1 q.1 ∧ Tries p.2 q.2)

/-- Two visits reach two others by the same steps. -/
abbrev Together : Visit × Visit → Visit × Visit → Prop := Relation.ReflTransGen Both

theorem Together.fst {p q : Visit × Visit} (h : Together p q) : Reaches p.1 q.1 := by
  induction h with
  | refl => exact .refl
  | tail _ hstep ih => exact ih.tail (hstep.imp And.left And.left)

theorem Together.snd {p q : Visit × Visit} (h : Together p q) : Reaches p.2 q.2 := by
  induction h with
  | refl => exact .refl
  | tail _ hstep ih => exact ih.tail (hstep.imp And.right And.right)

end Visit

/-- **What two evaluations keep.** -/
structure Lockstep where
  /-- How the stores compare.  The second store is the first one with the given scopes. -/
  Stores : Store → Array Scope → Prop
  /-- How the outputs compare. -/
  Sinks : Sink → Sink → Prop
  /-- The scopes in which declarations may be made. -/
  Own : ScopeId → Prop
  /-- The names that code may use. -/
  Names : String → Prop
  /-- The evaluations part where something that is already there is changed. -/
  Frozen : Prop
  size_eq : ∀ {σ scopes}, Stores σ scopes → scopes.size = σ.scopes.size
  names_of_closure : ∀ {σ scopes f c}, Stores σ scopes → σ.function? f = some (.closure c) →
    ∀ name ∈ Stmt.namesList c.body, Names name
  lookup_eq : ∀ {σ scopes} (scope : ScopeId) {name}, Stores σ scopes → Names name →
    (σ.withScopes scopes).lookup scope name = σ.lookup scope name
  own_newScope : ∀ {σ scopes}, Stores σ scopes → Own ⟨σ.scopes.size⟩
  stores_newArray : ∀ {σ scopes} (items : Array Value), Stores σ scopes →
    Stores (σ.newArray items).2 scopes
  stores_newMap : ∀ {σ scopes} (entries : Dict Value), Stores σ scopes →
    Stores (σ.newMap entries).2 scopes
  stores_newFunction : ∀ {σ scopes} (f : Function), Stores σ scopes →
    (∀ c, f = .closure c → ∀ name ∈ Stmt.namesList c.body, Names name) →
    Stores (σ.newFunction f).2 scopes
  stores_newScope : ∀ {σ scopes} (outer : Option ScopeId) (bindings : Dict Value),
    Stores σ scopes → Stores (σ.newScope outer bindings).2 (scopes.push ⟨outer, bindings⟩)
  stores_define : ∀ {σ scopes scope name} (value : Value), Stores σ scopes → Own scope →
    Names name → Stores (σ.define scope name value)
      ((σ.withScopes scopes).define scope name value).scopes
  stores_assign : ∀ {σ scopes name} (scope : ScopeId) (value : Value), ¬ Frozen →
    Stores σ scopes → Names name →
    ((σ.withScopes scopes).assign scope name value).1 = (σ.assign scope name value).1 ∧
      Stores (σ.assign scope name value).2 ((σ.withScopes scopes).assign scope name value).2.scopes
  stores_modifyArray : ∀ {σ scopes} (a : ArrayId) (change : Array Value → Array Value),
    ¬ Frozen → Stores σ scopes → Stores (σ.modifyArray a change) scopes
  stores_modifyMap : ∀ {σ scopes} (m : MapId) (change : Dict Value → Dict Value),
    ¬ Frozen → Stores σ scopes → Stores (σ.modifyMap m change) scopes
  sinks_writeLine : ∀ {a b : Sink} (text : String), Sinks a b →
    (a.writeLine text).1 = (b.writeLine text).1 →
    Sinks (a.writeLine text).2 (b.writeLine text).2

/-- Equal outputs stay equal. -/
theorem Sink.eq_writeLine {a b : Sink} (text : String) (h : a = b)
    (_ : (a.writeLine text).1 = (b.writeLine text).1) :
    (a.writeLine text).2 = (b.writeLine text).2 := by
  rw [h]

namespace Lockstep

variable {S : Lockstep} {here : ScopeId} {α β : Type} {m m' : Machine} {n : Nat}
variable {p q : Visit × Visit}

/-- Two machines that stand in the same scope, with stores and outputs that compare. -/
inductive Joins (S : Lockstep) (here : ScopeId) : Machine → Machine → Prop
  | intro {σ scopes a b depth} (hstores : S.Stores σ scopes) (hsinks : S.Sinks a b) :
      Joins S here ⟨σ, a, here, depth⟩ ⟨σ.withScopes scopes, b, here, depth⟩

/-- Two evaluations part here.  They print a line that only one of the outputs accepts, or they
change something, which is not followed, and then they compare no longer. -/
inductive Splits (S : Lockstep) : Visit × Visit → Prop
  | line {n f receiver args here m m'} (hjoins : S.Joins here m m')
      (hf : m.store.function? f = some (.native .println)) (hargs : args.length ≤ 1)
      (hline : (m.sink.writeLine (printed m.store args)).1 ≠
        (m'.sink.writeLine (printed m.store args)).1) :
      S.Splits
        (⟨n, .call (.function f) receiver args, m⟩, ⟨n, .call (.function f) receiver args, m'⟩)
  | change {n t here m m'} (hfrozen : S.Frozen) (hwrites : Visit.Writes ⟨n, t, m⟩)
      (hjoins : S.Joins here m m')
      (hbreaks : ¬ Related Eq (S.Joins here) Eq (t.run n m) (t.run n m')) :
      S.Splits (⟨n, t, m⟩, ⟨n, t, m'⟩)

/-- Two visits reach, by the same steps, visits at which they part. -/
def Parts (S : Lockstep) (p : Visit × Visit) : Prop := ∃ q, Visit.Together p q ∧ S.Splits q

/-- Two evaluations that do nothing by which they could part. -/
def Agrees (S : Lockstep) (here : ScopeId) (x : Eval α) : Prop :=
  ∀ ⦃m m' : Machine⦄, S.Joins here m m' → Related Eq (S.Joins here) Eq (x m) (x m')

/-- Two outcomes correspond, unless the visits `p` that they are outcomes of have parted. -/
def Goes (S : Lockstep) (p : Visit × Visit) (here : ScopeId)
    (r r' : EStateM.Result Stop Machine α) : Prop :=
  Related Eq (S.Joins here) Eq r r' ∨ S.Parts p

/-! ### Steps that nothing parts -/

theorem agrees_pure (a : α) : S.Agrees here (pure a : Eval α) := fun _ _ h => .ok rfl h

theorem agrees_stop (s : Stop) : S.Agrees here (stop s : Eval α) := fun _ _ h => .error rfl h

theorem agrees_raise (e : EvalError) : S.Agrees here (raise e : Eval α) := agrees_stop _

theorem agrees_ofExcept (r : Except EvalError α) : S.Agrees here (ofExcept r) := by
  cases r with
  | ok a => exact agrees_pure a
  | error e => exact agrees_raise e

theorem agrees_bind {x : Eval α} {f : α → Eval β} (hx : S.Agrees here x)
    (hf : ∀ a, S.Agrees here (f a)) : S.Agrees here (x >>= f) := by
  intro m m' h
  refine (hx h).bind fun a a' k k' ha hk => ?_
  subst ha
  exact hf a hk

/-- What follows a look at the store must not depend on scopes. -/
theorem agrees_getStore_bind {f : Store → Eval β}
    (hscopes : ∀ σ scopes, f (σ.withScopes scopes) = f σ) (hf : ∀ σ, S.Agrees here (f σ)) :
    S.Agrees here (getStore >>= f) := by
  rintro _ _ ⟨hstores, hsinks⟩
  rename_i σ scopes a b depth
  show Related _ _ _ (f σ _) (f (σ.withScopes scopes) _)
  rw [hscopes]
  exact hf σ ⟨hstores, hsinks⟩

theorem agrees_newArray (items : Array Value) : S.Agrees here (newArray items) := by
  rintro _ _ ⟨hstores, hsinks⟩
  exact .ok rfl ⟨S.stores_newArray items hstores, hsinks⟩

theorem agrees_newMap (entries : Dict Value) : S.Agrees here (newMap entries) := by
  rintro _ _ ⟨hstores, hsinks⟩
  exact .ok rfl ⟨S.stores_newMap entries hstores, hsinks⟩

theorem agrees_newFunction {f : Function}
    (hf : ∀ c, f = .closure c → ∀ name ∈ Stmt.namesList c.body, S.Names name) :
    S.Agrees here (newFunction f) := by
  rintro _ _ ⟨hstores, hsinks⟩
  exact .ok rfl ⟨S.stores_newFunction f hstores hf, hsinks⟩

theorem agrees_newClosure (label : Option String) (params : List String) {body : List (Stmt Unit)}
    (hbody : ∀ name ∈ Stmt.namesList body, S.Names name) :
    S.Agrees here (newClosure label params body) := by
  rintro _ _ ⟨hstores, hsinks⟩
  refine agrees_newFunction (f := .closure ⟨label, params, body, here⟩) ?_ ⟨hstores, hsinks⟩
  rintro c hc
  cases hc
  exact hbody

theorem agrees_define {name : String} (value : Value) (hown : S.Own here) (hname : S.Names name) :
    S.Agrees here (define name value) := by
  rintro _ _ ⟨hstores, hsinks⟩
  exact .ok rfl ⟨S.stores_define value hstores hown hname, hsinks⟩

theorem agrees_lookup {name : String} (hname : S.Names name) : S.Agrees here (lookup name) := by
  rintro _ _ ⟨hstores, hsinks⟩
  rename_i σ scopes a b depth
  unfold lookup
  simp only [S.lookup_eq here hstores hname]
  cases σ.lookup here name with
  | some v => exact agrees_pure v ⟨hstores, hsinks⟩
  | none => exact agrees_raise (α := Value) _ ⟨hstores, hsinks⟩

theorem agrees_readIndex (container key : Value) : S.Agrees here (readIndex container key) := by
  unfold readIndex
  refine agrees_getStore_bind (fun _ _ => rfl) fun σ => ?_
  split
  · refine agrees_bind (agrees_ofExcept _) fun i => ?_
    split
    · exact agrees_pure _
    · exact agrees_stop _
  · refine agrees_bind (agrees_ofExcept _) fun i => ?_
    split
    · exact agrees_pure _
    · exact agrees_stop _
  · exact agrees_pure _
  · exact agrees_raise _

theorem agrees_readMethod (target : Value) (name : String) :
    S.Agrees here (readMethod target name) := by
  unfold readMethod
  split
  · exact agrees_newFunction (by simp)
  · split
    · exact agrees_pure _
    · exact agrees_raise _

theorem agrees_readMember (target : Value) (name : String) :
    S.Agrees here (readMember target name) := by
  unfold readMember
  refine agrees_getStore_bind (fun _ _ => rfl) fun σ => ?_
  split
  · split
    · exact agrees_pure _
    · exact agrees_readMethod _ _
  · exact agrees_readMethod _ _

/-! ### Changes, unless the lock step is frozen -/

theorem agrees_modifyArray (hfrozen : ¬ S.Frozen) (a : ArrayId)
    (change : Array Value → Array Value) :
    S.Agrees here (modifyStore fun σ => σ.modifyArray a change) := by
  rintro _ _ ⟨hstores, hsinks⟩
  exact .ok rfl ⟨S.stores_modifyArray a change hfrozen hstores, hsinks⟩

theorem agrees_modifyMap (hfrozen : ¬ S.Frozen) (d : MapId) (change : Dict Value → Dict Value) :
    S.Agrees here (modifyStore fun σ => σ.modifyMap d change) := by
  rintro _ _ ⟨hstores, hsinks⟩
  exact .ok rfl ⟨S.stores_modifyMap d change hfrozen hstores, hsinks⟩

theorem agrees_assign (hfrozen : ¬ S.Frozen) {name : String} (value : Value)
    (hname : S.Names name) : S.Agrees here (assign name value) := by
  rintro _ _ ⟨hstores, hsinks⟩
  rename_i σ scopes a b depth
  obtain ⟨hfound, hafter⟩ := S.stores_assign here value hfrozen hstores hname
  have hobjects : ((σ.withScopes scopes).assign here name value).2 =
      (σ.assign here name value).2.withScopes
        ((σ.withScopes scopes).assign here name value).2.scopes := by
    unfold Store.assign
    split <;> split <;> rfl
  unfold assign
  cases hσ : σ.assign here name value with
  | mk found σ' =>
    cases hτ : (σ.withScopes scopes).assign here name value with
    | mk found' τ =>
      rw [hσ, hτ] at hfound hafter hobjects
      cases hfound
      simp only at hobjects hafter
      rw [hobjects]
      cases found with
      | true => exact .ok rfl ⟨hafter, hsinks⟩
      | false => exact agrees_raise (α := Unit) _ ⟨hafter, hsinks⟩

theorem agrees_writeIndex (hfrozen : ¬ S.Frozen) (container key value : Value) :
    S.Agrees here (writeIndex container key value) := by
  unfold writeIndex
  split
  · refine agrees_getStore_bind (fun _ _ => rfl) fun σ => ?_
    refine agrees_bind (agrees_ofExcept _) fun i => ?_
    split
    · exact agrees_modifyArray hfrozen _ _
    · exact agrees_stop _
  · exact agrees_modifyMap hfrozen _ _
  · exact agrees_raise _

theorem agrees_writeField (hfrozen : ¬ S.Frozen) (container : Value) (name : String)
    (value : Value) : S.Agrees here (writeField container name value) := by
  unfold writeField
  split
  · exact agrees_modifyMap hfrozen _ _
  · exact agrees_raise _

theorem agrees_mismatch (native : Native) (receiver : Option Value) :
    S.Agrees here (native.mismatch receiver) :=
  agrees_raise _

/-- A native function that prints nothing, and changes nothing if the lock step is frozen. -/
theorem agrees_native_run {native : Native} (hprints : native ≠ .println)
    (hchanges : native.changes = true → ¬ S.Frozen) (receiver : Option Value)
    (args : List Value) : S.Agrees here (native.run receiver args) := by
  cases native with
  | println => exact absurd rfl hprints
  | exit =>
    simp only [Native.run, Native.runExit]
    split
    · exact agrees_stop _
    · exact agrees_bind (agrees_ofExcept _) fun x => agrees_stop _
  | length =>
    simp only [Native.run, Native.runLength]
    refine agrees_getStore_bind (fun _ _ => rfl) fun σ => ?_
    split
    · exact agrees_pure _
    · exact agrees_pure _
    · exact agrees_pure _
    · exact agrees_mismatch _ _
  | push =>
    simp only [Native.run, Native.runPush]
    split
    · split
      · exact agrees_stop _
      · refine agrees_bind (agrees_modifyArray (hchanges rfl) _ _) fun _ => ?_
        exact agrees_getStore_bind (fun _ _ => rfl) fun σ => agrees_pure _
    · exact agrees_mismatch _ _
  | pop =>
    simp only [Native.run, Native.runPop]
    split
    · refine agrees_getStore_bind (fun _ _ => rfl) fun σ => ?_
      exact agrees_bind (agrees_modifyArray (hchanges rfl) _ _) fun _ => agrees_pure _
    · exact agrees_mismatch _ _
  | upper =>
    simp only [Native.run, Native.runUpper]
    split
    · exact agrees_pure _
    · exact agrees_mismatch _ _
  | lower =>
    simp only [Native.run, Native.runLower]
    split
    · exact agrees_pure _
    · exact agrees_mismatch _ _
  | keys =>
    simp only [Native.run, Native.runKeys]
    split
    · exact agrees_getStore_bind (fun _ _ => rfl) fun σ => agrees_newArray _
    · exact agrees_mismatch _ _
  | has =>
    simp only [Native.run, Native.runHas]
    split
    · exact agrees_stop _
    · split
      · exact agrees_getStore_bind (fun _ _ => rfl) fun σ => agrees_pure _
      · exact agrees_pure _
      · exact agrees_mismatch _ _

/-- A line that both outputs accept, or that both refuse. -/
theorem related_println {args : List Value} (h : S.Joins here m m')
    (hline : (m.sink.writeLine (printed m.store args)).1 =
      (m'.sink.writeLine (printed m.store args)).1) :
    Related Eq (S.Joins here) Eq (Native.runPrintln args m) (Native.runPrintln args m') := by
  obtain ⟨hstores, hsinks⟩ := h
  rename_i σ scopes a b depth
  have hprinted : printed (σ.withScopes scopes) args = printed σ args := by
    simp [printed, funext (σ.display_withScopes scopes)]
  have hafter := S.sinks_writeLine (printed σ args) hsinks hline
  show Related _ _ _ ((printLine (printed σ args) >>= fun _ => pure Value.undefined) _)
    ((printLine (printed (σ.withScopes scopes) args) >>= fun _ => pure Value.undefined) _)
  rw [hprinted]
  refine Related.bind (R := Eq) ?_ fun _ _ _ _ _ hk => .ok rfl hk
  unfold printLine
  simp only at hline hafter ⊢
  cases ha : a.writeLine (printed σ args) with
  | mk accepted a' =>
    cases hb : b.writeLine (printed σ args) with
    | mk accepted' b' =>
      rw [ha, hb] at hline hafter
      cases hline
      cases accepted with
      | true => exact .ok rfl ⟨hstores, hafter⟩
      | false => exact agrees_raise (α := Unit) _ ⟨hstores, hafter⟩

/-! ### Steps of two visits -/

/-- What nothing parts goes on. -/
theorem Agrees.goes {x : Eval α} (hx : S.Agrees here x) (h : S.Joins here m m') :
    S.Goes p here (x m) (x m') :=
  .inl (hx h)

/-- **Sequence.**  If the evaluations have not parted in the first step, they yielded the same
there. -/
theorem Goes.bind {x y : Eval α} {f : α → Eval β} (hx : S.Goes p here (x m) (y m'))
    (hf : ∀ a k k', x m = .ok a k → y m' = .ok a k' → S.Joins here k k' →
      S.Goes p here (f a k) (f a k')) : S.Goes p here ((x >>= f) m) ((y >>= f) m') := by
  rcases hx with hrelated | hparts
  · generalize hxm : x m = r at hrelated
    generalize hym : y m' = r' at hrelated
    cases hrelated with
    | ok hvalue hstate =>
      subst hvalue
      rw [bind_of_ok hxm, bind_of_ok hym]
      exact hf _ _ _ hxm hym hstate
    | error herror hstate =>
      rw [bind_of_error hxm, bind_of_error hym]
      exact .inl (.error herror hstate)
  · exact .inr hparts

theorem Goes.of_both {r r' : EStateM.Result Stop Machine α} (hpq : Visit.Both p q)
    (h : S.Goes q here r r') : S.Goes p here r r' := by
  rcases h with hrelated | ⟨u, hqu, hsplits⟩
  · exact .inl hrelated
  · exact .inr ⟨u, .head hpq hqu, hsplits⟩

/-- A step that both evaluations take. -/
theorem Goes.enter {r r' : EStateM.Result Stop Machine α} (h₁ : Visit.Enters p.1 q.1)
    (h₂ : Visit.Enters p.2 q.2) (h : S.Goes q here r r') : S.Goes p here r r' :=
  h.of_both (.inl ⟨h₁, h₂⟩)

/-- An evaluation in another scope comes back to the scope before it. -/
theorem Goes.within {x : Eval α} {inner scope scope' : ScopeId} (h : S.Joins here m m')
    (hx : S.Goes p inner (x { m with scope := scope }) (x { m' with scope := scope' })) :
    S.Goes p here (within scope x m) (within scope' x m') := by
  rcases hx with hrelated | hparts
  · obtain ⟨hstores, hsinks⟩ := h
    unfold Eval.within
    simp only at hrelated ⊢
    generalize x _ = r at hrelated ⊢
    generalize x _ = r' at hrelated ⊢
    cases hrelated with
    | ok hvalue hstate =>
      obtain ⟨hstores', hsinks'⟩ := hstate
      exact .inl (.ok hvalue ⟨hstores', hsinks'⟩)
    | error herror hstate =>
      obtain ⟨hstores', hsinks'⟩ := hstate
      exact .inl (.error herror ⟨hstores', hsinks'⟩)
  · exact .inr hparts

theorem Goes.calling {x y : Eval α} (h : S.Joins here m m')
    (hx : S.Goes p here (x { m with depth := m.depth + 1 }) (y { m' with depth := m.depth + 1 })) :
    S.Goes p here (calling x m) (calling y m') := by
  rcases hx with hrelated | hparts
  · obtain ⟨hstores, hsinks⟩ := h
    unfold Eval.calling
    simp only at hrelated ⊢
    generalize x _ = r at hrelated ⊢
    generalize y _ = r' at hrelated ⊢
    cases hrelated with
    | ok hvalue hstate =>
      obtain ⟨hstores', hsinks'⟩ := hstate
      exact .inl (.ok hvalue ⟨hstores', hsinks'⟩)
    | error herror hstate =>
      obtain ⟨hstores', hsinks'⟩ := hstate
      exact .inl (.error herror ⟨hstores', hsinks'⟩)
  · exact .inr hparts

/-- Both evaluations raise the same value, or neither does. -/
theorem Goes.catching {x : Eval α} {handler : Value → Eval α} (hx : S.Goes p here (x m) (x m'))
    (hhandler : ∀ payload k k', x m = .error (.raise payload) k →
      x m' = .error (.raise payload) k' → S.Joins here k k' →
      S.Goes p here (handler payload k) (handler payload k')) :
    S.Goes p here (catching x handler m) (catching x handler m') := by
  rcases hx with hrelated | hparts
  · unfold Eval.catching
    generalize hxm : x m = r at hrelated ⊢
    generalize hxm' : x m' = r' at hrelated ⊢
    cases hrelated with
    | ok hvalue hstate => exact .inl (.ok hvalue hstate)
    | @error s s' _ _ herror hstate =>
      subst herror
      cases s with
      | raise payload => exact hhandler payload _ _ hxm hxm' hstate
      | exit _ | fault _ | outOfFuel => exact .inl (.error rfl hstate)
  · exact .inr hparts

/-! ## Tasks -/

end Lockstep

namespace Task

/-- The names that a task uses. -/
def names : Task → List String
  | expr e | callee e => e.names
  | exprs es => Expr.namesList es
  | entries es => Expr.namesEntries es
  | place _ target => target.names
  | call _ _ _ => []
  | stmt s => s.names
  | stmts _ code | body _ code | items _ code _ => Stmt.namesList code
  | rounds condition code _ => condition.names ++ Stmt.namesList code

/-- Whether a task may declare names in the scope in which it is run. -/
def declares : Task → Bool
  | stmt s => s.declared?.isSome
  | stmts _ _ => true
  | _ => false

end Task

namespace Lockstep

variable {S : Lockstep} {here : ScopeId} {m m' : Machine} {n : Nat} {p : Visit × Visit}

theorem Joins.newScope {σ : Store} {scopes : Array Scope} {a b : Sink} {depth : Nat}
    (hstores : S.Stores σ scopes) (hsinks : S.Sinks a b) (outer : Option ScopeId)
    (bindings : Dict Value) :
    S.Joins here ⟨(σ.newScope outer bindings).2, a, here, depth⟩
      ⟨((σ.withScopes scopes).newScope outer bindings).2, b, here, depth⟩ :=
  ⟨S.stores_newScope outer bindings hstores, hsinks⟩

/-- A task that may be run in a scope: it uses names that code may use, and declares none where no
declarations may be made. -/
structure Permits (S : Lockstep) (t : Task) (here : ScopeId) : Prop where
  names : ∀ name ∈ t.names, S.Names name
  own : t.declares = true → S.Own here

/-- A task that declares nothing may be run in every scope. -/
theorem Permits.of_quiet {t : Task} (hnames : ∀ name ∈ t.names, S.Names name)
    (hquiet : t.declares = false) : S.Permits t here :=
  ⟨hnames, fun hdeclares => absurd (hquiet.symm.trans hdeclares) Bool.false_ne_true⟩

/-- A task that stays in lock step until two evaluations part. -/
def Follows (S : Lockstep) (n : Nat) (t : Task) : Prop :=
  ∀ {here m m'}, S.Permits t here → S.Joins here m m' →
    S.Goes (⟨n, t, m⟩, ⟨n, t, m'⟩) here (t.run n m) (t.run n m')

/-- A native function stays in lock step, unless it changes something and that is not followed, or
one of the outputs refuses its line. -/
theorem goes_native {f : FunctionId} {native : Native} (h : S.Joins here m m')
    (hf : m.store.function? f = some (.native native)) (receiver : Option Value)
    (args : List Value) :
    S.Goes (⟨n, .call (.function f) receiver args, m⟩, ⟨n, .call (.function f) receiver args, m'⟩)
      here (native.call receiver args m) (native.call receiver args m') := by
  by_cases hparts : native.changes = true ∧ S.Frozen
  · by_cases hrelated : Related Eq (S.Joins here) Eq (native.call receiver args m)
        (native.call receiver args m')
    · exact .inl hrelated
    · have hf' : m'.store.function? f = some (.native native) := by
        obtain ⟨-, -⟩ := h
        exact hf
      refine .inr ⟨_, .refl, .change hparts.2 (.method hf hparts.1) h ?_⟩
      show ¬ Related _ _ _ (Eval.call (execStmt n) (.function f) receiver args m)
        (Eval.call (execStmt n) (.function f) receiver args m')
      rw [call_of_native hf, call_of_native hf']
      exact hrelated
  unfold Native.call
  split
  · exact (agrees_raise _).goes h
  cases harity : checkArity native.minArgs native.maxArgs args.length with
  | error e => exact (agrees_raise _).goes h
  | ok _ =>
    show S.Goes _ here (native.run receiver args m) (native.run receiver args m')
    by_cases hprints : native = .println
    · subst hprints
      by_cases hline : (m.sink.writeLine (printed m.store args)).1 =
          (m'.sink.writeLine (printed m.store args)).1
      · exact .inl (related_println h hline)
      · have hargs : args.length ≤ 1 := by
          unfold checkArity at harity
          split at harity
          · next hcount =>
            simp only [Native.minArgs, Native.maxArgs, Bool.and_eq_true] at hcount
            exact of_decide_eq_true hcount.2
          · cases harity
        exact .inr ⟨_, .refl, .line h hf hargs hline⟩
    · have hchanges : native.changes = true → ¬ S.Frozen := fun hc hfrozen => hparts ⟨hc, hfrozen⟩
      exact (agrees_native_run hprints hchanges receiver args).goes h

section Trees

variable (heval : ∀ e, S.Follows n (.expr e)) (hexec : ∀ s, S.Follows n (.stmt s))

section Expressions

include heval

/-- An expression may be evaluated in every scope. -/
theorem goes_expr {e : Expr Unit} (hnames : ∀ name ∈ e.names, S.Names name)
    (h : S.Joins here m m') :
    S.Goes (⟨n, .expr e, m⟩, ⟨n, .expr e, m'⟩) here (evalExpr n e m) (evalExpr n e m') :=
  heval e (.of_quiet hnames rfl) h

theorem follows_exprs (es : List (Expr Unit)) : S.Follows n (.exprs es) := by
  induction es with
  | nil => exact fun _ h => (agrees_pure _).goes h
  | cons e es ih =>
    rintro here m m' ⟨hnames, -⟩ h
    simp only [Task.names, Expr.namesList, List.forall_mem_append] at hnames
    refine Goes.bind (.enter .exprsHead .exprsHead (goes_expr heval hnames.1 h)) ?_
    intro v k k' hv hv' hk
    have htail := ih (.of_quiet hnames.2 rfl) hk
    refine Goes.bind (.enter (.exprsTail hv) (.exprsTail hv') htail) ?_
    intro vs l l' _ _ hl
    exact (agrees_pure _).goes hl

theorem follows_entries (es : List (String × Expr Unit)) : S.Follows n (.entries es) := by
  induction es with
  | nil => exact fun _ h => (agrees_pure _).goes h
  | cons e es ih =>
    rintro here m m' ⟨hnames, -⟩ h
    simp only [Task.names, Expr.namesEntries, List.forall_mem_append] at hnames
    refine Goes.bind (.enter .entriesHead .entriesHead (goes_expr heval hnames.1 h)) ?_
    intro v k k' hv hv' hk
    have htail := ih (.of_quiet hnames.2 rfl) hk
    refine Goes.bind (.enter (.entriesTail hv) (.entriesTail hv') htail) ?_
    intro vs l l' _ _ hl
    exact (agrees_pure _).goes hl

theorem follows_callee (e : Expr Unit) : S.Follows n (.callee e) := by
  rintro here m m' ⟨hnames, -⟩ h
  by_cases hfield : ∃ a e' name, e = .field a e' name
  · obtain ⟨a, e', name, rfl⟩ := hfield
    simp only [Task.names, Expr.names] at hnames
    refine Goes.bind (.enter .calleeOwner .calleeOwner (goes_expr heval hnames h)) ?_
    intro target k k' _ _ hk
    exact (agrees_bind (agrees_readMember _ _) fun f => agrees_pure _).goes hk
  · have hself : ∀ a e' name, e ≠ .field a e' name := fun a e' name heq =>
      hfield ⟨a, e', name, heq⟩
    show S.Goes _ here (evalCallee (evalExpr n) e m) (evalCallee (evalExpr n) e m')
    rw [Visit.evalCallee_of_ne_field hself]
    have hvalue := goes_expr heval hnames h
    refine Goes.bind (.enter (.calleeValue hself) (.calleeValue hself) hvalue) ?_
    intro f k k' _ _ hk
    exact (agrees_pure _).goes hk

/-- An assignment stays in lock step, or is not followed. -/
theorem follows_place (value : Value) (target : Target Unit) :
    S.Follows n (.place value target) := by
  rintro here m m' ⟨hnames, -⟩ h
  by_cases hfrozen : S.Frozen
  · by_cases hrelated : Related Eq (S.Joins here) Eq ((Task.place value target).run n m)
        ((Task.place value target).run n m')
    · exact .inl hrelated
    · exact .inr ⟨_, .refl, .change hfrozen .place h hrelated⟩
  cases target with
  | var a name =>
    have hname : S.Names name := hnames name (by simp [Task.names])
    exact (agrees_assign hfrozen value hname).goes h
  | field a container name =>
    simp only [Task.names, Target.names] at hnames
    refine Goes.bind (.enter .placeOwner .placeOwner (goes_expr heval hnames h)) ?_
    intro target k k' _ _ hk
    exact (agrees_writeField hfrozen _ _ _).goes hk
  | index a container key =>
    simp only [Task.names, Target.names, List.forall_mem_append] at hnames
    refine Goes.bind (.enter .placeIndexed .placeIndexed (goes_expr heval hnames.1 h)) ?_
    intro target k k' htarget htarget' hk
    have hkey := goes_expr heval hnames.2 hk
    refine Goes.bind (.enter (.placeIndex htarget) (.placeIndex htarget') hkey) ?_
    intro v l l' _ _ hl
    exact (agrees_writeIndex hfrozen _ _ _).goes hl

end Expressions

section Bodies

include hexec

theorem follows_stmts (last : Value) (code : List (Stmt Unit)) :
    S.Follows n (.stmts last code) := by
  induction code generalizing last with
  | nil => exact fun _ h => (agrees_pure _).goes h
  | cons s code ih =>
    rintro here m m' ⟨hnames, hown⟩ h
    simp only [Task.names, Stmt.namesList, List.forall_mem_append] at hnames
    have hhead := hexec s ⟨hnames.1, fun _ => hown rfl⟩ h
    refine Goes.bind (.enter .stmtsHead .stmtsHead hhead) ?_
    intro flow k k' hflow hflow' hk
    cases flow with
    | next v =>
      exact .enter (.stmtsTail hflow) (.stmtsTail hflow') (ih v ⟨hnames.2, hown⟩ hk)
    | ret _ | brk | cont => exact (agrees_pure _).goes hk

/-- Statements in a new scope, in which declarations may be made. -/
theorem goes_newScope {σ : Store} {scopes : Array Scope} {a b : Sink}
    (hstores : S.Stores σ scopes) (hsinks : S.Sinks a b) (outer : Option ScopeId)
    (bindings : Dict Value) (depth : Nat) {code : List (Stmt Unit)}
    (hnames : ∀ name ∈ Stmt.namesList code, S.Names name) :
    let k : Machine := ⟨(σ.newScope outer bindings).2, a, ⟨σ.scopes.size⟩, depth⟩
    let k' : Machine :=
      ⟨((σ.withScopes scopes).newScope outer bindings).2, b, ⟨scopes.size⟩, depth⟩
    S.Goes (⟨n, .stmts .undefined code, k⟩, ⟨n, .stmts .undefined code, k'⟩) ⟨σ.scopes.size⟩
      (runAll (execStmt n) .undefined code k) (runAll (execStmt n) .undefined code k') := by
  have hown := S.own_newScope hstores
  have hnew := S.stores_newScope outer bindings hstores
  rw [S.size_eq hstores]
  exact follows_stmts hexec .undefined code ⟨hnames, fun _ => hown⟩ ⟨hnew, hsinks⟩

theorem follows_body (bindings : Dict Value) (code : List (Stmt Unit)) :
    S.Follows n (.body bindings code) := by
  rintro _ _ _ ⟨hnames, -⟩ ⟨hstores, hsinks⟩
  rename_i here σ scopes a b depth
  have hcode := goes_newScope hexec hstores hsinks (some here) bindings depth hnames
  show S.Goes _ here
    (within ⟨σ.scopes.size⟩ (runAll (execStmt n) .undefined code) ⟨_, a, here, depth⟩)
    (within ⟨scopes.size⟩ (runAll (execStmt n) .undefined code) ⟨_, b, here, depth⟩)
  exact Goes.within (.newScope hstores hsinks (some here) bindings) (.enter .stmts .stmts hcode)

/-- The body of a function has a scope of its own too. -/
theorem goes_callClosure {σ : Store} {scopes : Array Scope} {a b : Sink} {depth : Nat}
    (hstores : S.Stores σ scopes) (hsinks : S.Sinks a b) {f : FunctionId} {c : Closure}
    (hf : σ.function? f = some (.closure c)) (receiver : Option Value) (args : List Value) :
    let k : Machine := ⟨σ, a, here, depth⟩
    let k' : Machine := ⟨σ.withScopes scopes, b, here, depth⟩
    S.Goes (⟨n, .call (.function f) receiver args, k⟩, ⟨n, .call (.function f) receiver args, k'⟩)
      here (callClosure (execStmt n) c args k) (callClosure (execStmt n) c args k') := by
  intro k k'
  have hjoins : S.Joins here k k' := ⟨hstores, hsinks⟩
  unfold callClosure
  by_cases hargs : args.length = c.params.length
  · rw [if_neg (fun hne => hne hargs)]
    show S.Goes _ here ((if maxCallDepth ≤ depth then _ else _ : Eval Value) k)
      ((if maxCallDepth ≤ depth then _ else _ : Eval Value) k')
    by_cases hdepth : depth < maxCallDepth
    · rw [if_neg (Nat.not_le.mpr hdepth)]
      have hcode := goes_newScope hexec hstores hsinks (some c.scope)
        (Dict.empty.insertAll (c.params.zip args)) (depth + 1) (S.names_of_closure hstores hf)
      show S.Goes _ here
        ((calling (runBody (execStmt n) c.body ⟨σ.scopes.size⟩) >>= _) ⟨_, a, here, depth⟩)
        ((calling (runBody (execStmt n) c.body ⟨scopes.size⟩) >>= _) ⟨_, b, here, depth⟩)
      have hbody := hcode.enter (p := (⟨n, .call (.function f) receiver args, k⟩,
        ⟨n, .call (.function f) receiver args, k'⟩)) (.code hf hargs hdepth) (.code hf hargs hdepth)
      refine Goes.bind (Goes.calling (.newScope hstores hsinks _ _)
        (Goes.within (.newScope hstores hsinks _ _) hbody)) ?_
      intro flow l l' _ _ hl
      cases flow with
      | next _ | ret _ => exact (agrees_pure _).goes hl
      | brk | cont => exact (agrees_raise _).goes hl
    · rw [if_pos (Nat.not_lt.mp hdepth)]
      exact (agrees_raise _).goes hjoins
  · rw [if_pos hargs]
    exact (agrees_raise _).goes hjoins

theorem follows_call (callee : Value) (receiver : Option Value) (args : List Value) :
    S.Follows n (.call callee receiver args) := by
  rintro _ _ _ - ⟨hstores, hsinks⟩
  rename_i here σ scopes a b depth
  cases callee with
  | function f =>
    have hjoins : S.Joins here ⟨σ, a, here, depth⟩ ⟨σ.withScopes scopes, b, here, depth⟩ :=
      ⟨hstores, hsinks⟩
    have hsame : (σ.withScopes scopes).function? f = σ.function? f := rfl
    show S.Goes _ here (Eval.call (execStmt n) (.function f) receiver args _)
      (Eval.call (execStmt n) (.function f) receiver args _)
    cases hf : σ.function? f with
    | none =>
      rw [call_of_none hf, call_of_none (hsame.trans hf)]
      exact (agrees_stop _).goes hjoins
    | some g =>
      cases g with
      | native native =>
        rw [call_of_native hf, call_of_native (hsame.trans hf)]
        exact goes_native hjoins hf receiver args
      | closure c =>
        rw [call_of_closure hf, call_of_closure (hsame.trans hf)]
        exact goes_callClosure hexec hstores hsinks hf receiver args
  | undefined | boolean _ | number _ | text _ | array _ | map _ =>
    exact (agrees_raise _).goes ⟨hstores, hsinks⟩

theorem follows_items (name : String) (code : List (Stmt Unit)) (left : List Value) :
    S.Follows n (.items name code left) := by
  induction left with
  | nil => exact fun _ h => (agrees_pure _).goes h
  | cons v left ih =>
    rintro here m m' ⟨hnames, -⟩ h
    have hbody := follows_body hexec (Dict.empty.insert name v) code (.of_quiet hnames rfl) h
    refine Goes.bind (.enter .itemBody .itemBody hbody) ?_
    intro flow k k' hflow hflow' hk
    have hrest := ih (.of_quiet hnames rfl) hk
    cases flow with
    | next _ | cont => exact .enter (.itemNext hflow rfl) (.itemNext hflow' rfl) hrest
    | ret _ | brk => exact (agrees_pure _).goes hk

end Bodies

include heval hexec

theorem follows_rounds (condition : Expr Unit) (code : List (Stmt Unit)) (left : Nat) :
    S.Follows n (.rounds condition code left) := by
  induction left with
  | zero => exact fun _ h => (agrees_stop _).goes h
  | succ left ih =>
    rintro here m m' ⟨hnames, -⟩ h
    have hparts := hnames
    simp only [Task.names, List.forall_mem_append] at hparts
    refine Goes.bind (.enter .roundTest .roundTest (goes_expr heval hparts.1 h)) ?_
    intro v k k' hv hv' hk
    by_cases htrue : v.truthy = true
    · rw [if_pos htrue]
      have hbody := follows_body hexec .empty code (.of_quiet hparts.2 rfl) hk
      refine Goes.bind (.enter (.roundBody hv htrue) (.roundBody hv' htrue) hbody) ?_
      intro flow l l' hflow hflow' hl
      have hrest := ih (.of_quiet hnames rfl) hl
      cases flow with
      | next _ | cont =>
        exact .enter (.roundNext hv htrue hflow rfl) (.roundNext hv' htrue hflow' rfl) hrest
      | ret _ | brk => exact (agrees_pure _).goes hl
    · rw [if_neg htrue]
      exact (agrees_pure _).goes hk

/-- **One level of an expression.** -/
theorem follows_evalWith (e : Expr Unit) : S.Follows (n + 1) (.expr e) := by
  rintro here m m' ⟨hnames, -⟩ h
  cases e with
  | number _ _ | text _ _ | boolean _ _ | undefined _ => exact (agrees_pure _).goes h
  | var a name => exact (agrees_lookup (hnames name (by simp [Task.names]))).goes h
  | binary a op left right =>
    simp only [Task.names, Expr.names, List.forall_mem_append] at hnames
    refine Goes.bind (.enter .left .left (goes_expr heval hnames.1 h)) ?_
    intro l k k' hl hl' hk
    cases hop : op.shortcut? l with
    | some v => exact (agrees_pure _).goes hk
    | none =>
      refine Goes.bind (.enter (.right hl hop) (.right hl' hop) (goes_expr heval hnames.2 hk)) ?_
      intro r j j' _ _ hj
      refine Agrees.goes ?_ hj
      exact agrees_getStore_bind (fun σ scopes => by rw [σ.apply_withScopes]) fun σ =>
        agrees_ofExcept _
  | unary a op operand =>
    refine Goes.bind (.enter .operand .operand (goes_expr heval hnames h)) ?_
    intro v k k' _ _ hk
    exact (agrees_ofExcept _).goes hk
  | assign a target value =>
    simp only [Task.names, Expr.names, List.forall_mem_append] at hnames
    refine Goes.bind (.enter .assigned .assigned (goes_expr heval hnames.2 h)) ?_
    intro v k k' hv hv' hk
    have hplace := follows_place heval v target (.of_quiet hnames.1 rfl) hk
    refine Goes.bind (.enter (.place hv) (.place hv') hplace) ?_
    intro _ l l' _ _ hl
    exact (agrees_pure _).goes hl
  | call a callee args =>
    simp only [Task.names, Expr.names, List.forall_mem_append] at hnames
    have hcallee := follows_callee heval callee (.of_quiet hnames.1 rfl) h
    refine Goes.bind (.enter .callee .callee hcallee) ?_
    intro f k k' hf hf' hk
    have hargs := follows_exprs heval args (.of_quiet hnames.2 rfl) hk
    refine Goes.bind (.enter (.args hf) (.args hf') hargs) ?_
    intro vs l l' hvs hvs' hl
    have hcall := follows_call hexec f.1 f.2 vs (.of_quiet (by simp [Task.names]) rfl) hl
    exact .enter (.call hf hvs) (.call hf' hvs') hcall
  | array a items =>
    have hitems := follows_exprs heval items (.of_quiet hnames rfl) h
    refine Goes.bind (.enter .array .array hitems) ?_
    intro vs k k' _ _ hk
    exact (agrees_newArray _).goes hk
  | map a entries =>
    have hentries := follows_entries heval entries (.of_quiet hnames rfl) h
    refine Goes.bind (.enter .map .map hentries) ?_
    intro vs k k' _ _ hk
    exact (agrees_newMap _).goes hk
  | index a container key =>
    simp only [Task.names, Expr.names, List.forall_mem_append] at hnames
    refine Goes.bind (.enter .indexed .indexed (goes_expr heval hnames.1 h)) ?_
    intro target k k' ht ht' hk
    refine Goes.bind (.enter (.index ht) (.index ht') (goes_expr heval hnames.2 hk)) ?_
    intro v l l' _ _ hl
    exact (agrees_readIndex _ _).goes hl
  | field a container name =>
    refine Goes.bind (.enter .owner .owner (goes_expr heval hnames h)) ?_
    intro target k k' _ _ hk
    exact (agrees_readMember _ _).goes hk
  | lambda a label params body =>
    simp only [Task.names, Expr.names, List.forall_mem_append] at hnames
    exact (agrees_newClosure label params hnames.2).goes h

/-- **One level of a statement.** -/
theorem follows_execWith (s : Stmt Unit) : S.Follows (n + 1) (.stmt s) := by
  rintro here m m' ⟨hnames, hown⟩ h
  cases s with
  | letVar a name init =>
    have hname : S.Names name := hnames name (by cases init <;> simp [Task.names])
    have hdefine : ∀ v, S.Agrees here (do define name v; return Completion.next v) := fun v =>
      agrees_bind (agrees_define v (hown rfl) hname) fun _ => agrees_pure _
    cases init with
    | none => exact (hdefine .undefined).goes h
    | some e =>
      simp only [Task.names, Stmt.names, List.forall_mem_cons] at hnames
      refine Goes.bind (.enter .init .init (goes_expr heval hnames.2 h)) ?_
      intro v k k' _ _ hk
      exact (hdefine v).goes hk
  | function a name params body =>
    simp only [Task.names, Stmt.names, List.forall_mem_cons, List.forall_mem_append] at hnames
    refine Agrees.goes ?_ h
    refine agrees_bind (agrees_newClosure (some name) params hnames.2.2) fun f => ?_
    exact agrees_bind (agrees_define f (hown rfl) hnames.1) fun _ => agrees_pure _
  | expr a e =>
    refine Goes.bind (.enter .expr .expr (goes_expr heval hnames h)) ?_
    intro v k k' _ _ hk
    exact (agrees_pure _).goes hk
  | block a body =>
    exact .enter .block .block (follows_body hexec .empty body (.of_quiet hnames rfl) h)
  | ifElse a condition yes no =>
    have hcondition : ∀ name ∈ condition.names, S.Names name := by
      intro name hname
      cases no <;> exact hnames name (by simp [Task.names, hname])
    have hyes : ∀ name ∈ Stmt.namesList yes, S.Names name := by
      intro name hname
      cases no <;> exact hnames name (by simp [Task.names, hname])
    refine Goes.bind (.enter .condition .condition (goes_expr heval hcondition h)) ?_
    intro v k k' hv hv' hk
    by_cases htrue : v.truthy = true
    · rw [if_pos htrue]
      have hbody := follows_body hexec .empty yes (.of_quiet hyes rfl) hk
      refine Goes.bind (.enter (.yes hv htrue) (.yes hv' htrue) hbody) ?_
      intro flow l l' _ _ hl
      exact (agrees_pure _).goes hl
    · rw [if_neg htrue]
      rw [Bool.not_eq_true] at htrue
      cases no with
      | none => exact (agrees_pure _).goes hk
      | some no =>
        simp only [Task.names, Stmt.names, List.forall_mem_append] at hnames
        have hbody := follows_body hexec .empty no (.of_quiet hnames.2.2 rfl) hk
        refine Goes.bind (.enter (.no hv htrue) (.no hv' htrue) hbody) ?_
        intro flow l l' _ _ hl
        exact (agrees_pure _).goes hl
  | whileLoop a condition body =>
    have hrounds := follows_rounds heval hexec condition body n (.of_quiet hnames rfl) h
    exact .enter .loop .loop hrounds
  | forEach a name items body =>
    simp only [Task.names, Stmt.names, List.forall_mem_cons, List.forall_mem_append] at hnames
    refine Goes.bind (.enter .iterated .iterated (goes_expr heval hnames.2.1 h)) ?_
    rintro v _ _ hv hv' ⟨hstores, hsinks⟩
    rename_i σ scopes c d depth
    have hsame : (σ.withScopes scopes).items v = σ.items v := σ.items_withScopes scopes v
    show S.Goes _ here
      ((ofExcept (σ.items v) >>= forLoop (runBinding (execStmt n) name body)) _)
      ((ofExcept ((σ.withScopes scopes).items v) >>= forLoop (runBinding (execStmt n) name body)) _)
    rw [hsame]
    cases hvs : σ.items v with
    | error e => exact (agrees_raise _).goes ⟨hstores, hsinks⟩
    | ok vs =>
      have hjoins : S.Joins here ⟨σ, c, here, depth⟩ ⟨σ.withScopes scopes, d, here, depth⟩ :=
        ⟨hstores, hsinks⟩
      have hloop := follows_items hexec name body vs (.of_quiet hnames.2.2 rfl) hjoins
      exact .enter (.items hv hvs) (.items hv' (hsame.trans hvs)) hloop
  | tryCatch a body name handler =>
    simp only [Task.names, Stmt.names, List.forall_mem_cons, List.forall_mem_append] at hnames
    have hbody := follows_body hexec .empty body (.of_quiet hnames.2.1 rfl) h
    refine Goes.bind (Goes.catching (hbody.of_both (.inr ⟨.body, .body⟩)) ?_) ?_
    · intro payload k k' hraise hraise' hk
      have hhandler := follows_body hexec (Dict.empty.insert name payload) handler
        (.of_quiet hnames.2.2 rfl) hk
      exact .enter (.handler hraise) (.handler hraise') hhandler
    · intro flow k k' _ _ hk
      exact (agrees_pure _).goes hk
  | throw a e =>
    refine Goes.bind (.enter .thrown .thrown (goes_expr heval hnames h)) ?_
    intro v k k' _ _ hk
    exact (agrees_stop _).goes hk
  | ret a e =>
    cases e with
    | none => exact (agrees_pure _).goes h
    | some e =>
      refine Goes.bind (.enter .returned .returned (goes_expr heval hnames h)) ?_
      intro v k k' _ _ hk
      exact (agrees_pure _).goes hk
  | brk _ | cont _ => exact (agrees_pure _).goes h

end Trees

/-! ## Evaluations -/

/-- Expressions and statements, by induction on the fuel. -/
theorem follows_eval_exec (S : Lockstep) (n : Nat) :
    (∀ e, S.Follows n (.expr e)) ∧ ∀ s, S.Follows n (.stmt s) := by
  induction n with
  | zero =>
    exact ⟨fun _ _ _ _ _ h => (agrees_stop _).goes h, fun _ _ _ _ _ h => (agrees_stop _).goes h⟩
  | succ n ih =>
    obtain ⟨heval, hexec⟩ := ih
    exact ⟨follows_evalWith heval hexec, follows_execWith heval hexec⟩

/-- **Every task stays in lock step until two evaluations part.** -/
theorem follows (S : Lockstep) (n : Nat) (t : Task) : S.Follows n t := by
  obtain ⟨heval, hexec⟩ := S.follows_eval_exec n
  cases t with
  | expr e => exact heval e
  | exprs es => exact follows_exprs heval es
  | entries es => exact follows_entries heval es
  | callee e => exact follows_callee heval e
  | place value target => exact follows_place heval value target
  | call f receiver args => exact follows_call hexec f receiver args
  | stmt s => exact hexec s
  | stmts last code => exact follows_stmts hexec last code
  | body bindings code => exact follows_body hexec bindings code
  | rounds condition code left => exact follows_rounds heval hexec condition code left
  | items name code left => exact follows_items hexec name code left

/-- **A statement at the top level stays in lock step until two evaluations part.** -/
theorem goes_evaluate (S : Lockstep) (n : Nat) {s : Stmt Unit}
    (hnames : ∀ name ∈ s.names, S.Names name) (hown : s.declared?.isSome = true → S.Own here)
    (h : S.Joins here m m') :
    S.Goes (⟨n, .stmt s, m⟩, ⟨n, .stmt s, m'⟩) here (s.evaluate n m) (s.evaluate n m') := by
  refine Goes.bind (S.follows n (.stmt s) ⟨hnames, hown⟩ h) ?_
  intro flow k k' _ _ hk
  cases flow with
  | next v => exact (agrees_pure v).goes hk
  | ret _ | brk | cont => exact (agrees_raise _).goes hk

end Lockstep

end Script
