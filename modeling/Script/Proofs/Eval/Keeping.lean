import Script.Eval.Stmt
import Script.Proofs.Outcome

/-!
# What every evaluation keeps

An evaluation may be asked to keep a guarantee: it leaves the scope and the call depth as it found
them, it only makes function objects of a given sort, and it does not run out of fuel.  Each
combinator of the evaluator keeps whatever guarantee its parts keep, so each construct of the
language does too.

The guarantee that asks nothing of function objects and of fuel is kept by every evaluation.  It is
the statement that blocks, calls and handlers restore the scope and the call depth however they end.

## Main definitions

* `Guarantee`: what is asked.
* `Guarantee.Keeps`: the evaluations that keep a guarantee at a call depth.
* `Expr.parts`, `Stmt.parts`, `Stmt.bodies`: the trees that one level of an expression or a
  statement evaluates.

## Main results

* `Guarantee.keeps_evalWith`, `Guarantee.keeps_execWith`: one level of a tree keeps what its parts
  keep.
* `keeps_frame`: evaluation restores the scope and the call depth.
-/

namespace Script

open Eval Outcome

/-! ## Endings -/

namespace Eval

variable {α : Type}

/-- The machine that an evaluation leaves, however it ends. -/
def after (x : Eval α) (m : Machine) : Machine :=
  match x m with
  | .ok _ m' => m'
  | .error _ m' => m'

/-- An evaluation runs out of fuel. -/
def Exhausts (x : Eval α) (m : Machine) : Prop := ∃ m', x m = .error .outOfFuel m'

theorem after_of_ok {x : Eval α} {m m' : Machine} {a : α} (h : x m = .ok a m') :
    after x m = m' := by
  simp [after, h]

theorem after_of_error {x : Eval α} {m m' : Machine} {s : Stop} (h : x m = .error s m') :
    after x m = m' := by
  simp [after, h]

theorem not_exhausts_of_ok {x : Eval α} {m m' : Machine} {a : α} (h : x m = .ok a m') :
    ¬ Exhausts x m := by
  rintro ⟨m'', h'⟩
  rw [h] at h'
  cases h'

theorem exhausts_iff_of_error {x : Eval α} {m m' : Machine} {s : Stop} (h : x m = .error s m') :
    Exhausts x m ↔ s = .outOfFuel := by
  simp [Exhausts, h]

end Eval

/-! ## The parts of a tree -/

/-- The expression that the callee of a call evaluates: what its member is taken of, or itself. -/
def Expr.calleePart : Expr Unit → Expr Unit
  | .field _ container _ => container
  | e => e

theorem Expr.calleePart_of_ne_field {e : Expr Unit} (h : ∀ a e' name, e ≠ .field a e' name) :
    e.calleePart = e := by
  unfold Expr.calleePart
  split
  · exact absurd rfl (h _ _ _)
  · rfl

/-- The expressions that an assignment to a place evaluates. -/
def Target.parts : Target Unit → List (Expr Unit)
  | .var _ _ => []
  | .field _ container _ => [container]
  | .index _ container key => [container, key]

/-- The expressions that one level of an expression evaluates. -/
def Expr.parts : Expr Unit → List (Expr Unit)
  | .binary _ _ left right => [left, right]
  | .unary _ _ operand => [operand]
  | .assign _ target value => value :: target.parts
  | .call _ callee args => callee.calleePart :: args
  | .array _ items => items
  | .map _ entries => entries.map Prod.snd
  | .index _ container key => [container, key]
  | .field _ container _ => [container]
  | _ => []

/-- The code of the function objects that one level of an expression makes. -/
def Expr.codes : Expr Unit → List (List (Stmt Unit))
  | .lambda _ _ _ body => [body]
  | _ => []

/-- The expressions that one level of a statement evaluates. -/
def Stmt.parts : Stmt Unit → List (Expr Unit)
  | .letVar _ _ init => init.toList
  | .expr _ e => [e]
  | .ifElse _ condition _ _ => [condition]
  | .whileLoop _ condition _ => [condition]
  | .forEach _ _ items _ => [items]
  | .throw _ e => [e]
  | .ret _ e => e.toList
  | _ => []

/-- The statements that one level of a statement runs. -/
def Stmt.bodies : Stmt Unit → List (Stmt Unit)
  | .block _ body => body
  | .ifElse _ _ yes no => yes ++ no.getD []
  | .whileLoop _ _ body => body
  | .forEach _ _ _ body => body
  | .tryCatch _ body _ handler => body ++ handler
  | _ => []

/-- The code of the function objects that one level of a statement makes. -/
def Stmt.codes : Stmt Unit → List (List (Stmt Unit))
  | .function _ _ _ body => [body]
  | _ => []

/-- Whether a statement is a loop with a condition. -/
def Stmt.isWhile : Stmt Unit → Bool
  | .whileLoop .. => true
  | _ => false

/-! ## Guarantees -/

/-- What is asked of an evaluation: every function object is `good`, and if `total` holds, there is
enough fuel. -/
structure Guarantee where
  good : Function → Prop
  good_native : ∀ n, good (.native n)
  total : Prop

namespace Guarantee

variable {G : Guarantee} {d : Nat} {α β : Type}

/-- All function objects of a store are good. -/
def Holds (G : Guarantee) (σ : Store) : Prop := ∀ f ∈ σ.functions, G.good f

/-- The machine `m'` is one that an evaluation from `m` may leave. -/
structure Kept (G : Guarantee) (m m' : Machine) : Prop where
  scope : m'.scope = m.scope
  depth : m'.depth = m.depth
  holds : G.Holds m'.store

/-- An evaluation keeps a guarantee from every machine at call depth `d`. -/
def Keeps (G : Guarantee) (d : Nat) (x : Eval α) : Prop :=
  ∀ m : Machine, m.depth = d → G.Holds m.store →
    G.Kept m (after x m) ∧ (G.total → ¬ Exhausts x m)

theorem Kept.refl {m : Machine} (h : G.Holds m.store) : G.Kept m m := ⟨rfl, rfl, h⟩

theorem Kept.trans {m₁ m₂ m₃ : Machine} (h : G.Kept m₁ m₂) (h' : G.Kept m₂ m₃) :
    G.Kept m₁ m₃ :=
  ⟨h'.scope.trans h.scope, h'.depth.trans h.depth, h'.holds⟩

/-- A change that keeps the function objects keeps every guarantee on them. -/
theorem Holds.of_functions_eq {σ τ : Store} (h : G.Holds σ) (heq : τ.functions = σ.functions) :
    G.Holds τ := by
  unfold Holds
  rw [heq]
  exact h

/-- The guarantee on a function object that is looked up. -/
theorem Holds.function? {σ : Store} {a : FunctionId} {f : Function} (h : G.Holds σ)
    (hf : σ.function? a = some f) : G.good f := by
  unfold Store.function? at hf
  exact h f (Array.mem_of_getElem? hf)

/-! ### Combinators -/

theorem keeps_pure (a : α) : G.Keeps d (pure a : Eval α) := by
  intro m _ hm
  exact ⟨.refl hm, fun _ => not_exhausts_of_ok rfl⟩

theorem keeps_stop {s : Stop} (hs : s ≠ .outOfFuel) : G.Keeps d (stop s : Eval α) := by
  intro m _ hm
  refine ⟨.refl hm, fun _ => ?_⟩
  rw [exhausts_iff_of_error (x := stop s) rfl]
  exact hs

theorem keeps_raise (e : EvalError) : G.Keeps d (raise e : Eval α) := keeps_stop (by simp)

theorem keeps_ofExcept (r : Except EvalError α) : G.Keeps d (ofExcept r) := by
  cases r with
  | ok a => exact keeps_pure a
  | error e => exact keeps_raise e

/-- **Sequence.**  The second step starts from a machine that the first step leaves. -/
theorem keeps_bind {x : Eval α} {f : α → Eval β} (hx : G.Keeps d x)
    (hf : ∀ a, G.Keeps d (f a)) : G.Keeps d (x >>= f) := by
  intro m hd hm
  obtain ⟨hkept, hfuel⟩ := hx m hd hm
  cases h : x m with
  | ok a m' =>
    rw [after_of_ok h] at hkept
    obtain ⟨hkept', hfuel'⟩ := hf a m' (hkept.depth.trans hd) hkept.holds
    unfold Exhausts after
    rw [bind_of_ok h]
    exact ⟨hkept.trans hkept', hfuel'⟩
  | error s m' =>
    unfold Exhausts after at *
    rw [bind_of_error h]
    rw [h] at hkept hfuel
    refine ⟨hkept, fun ht => ?_⟩
    simpa using hfuel ht

/-- What follows a look at the store may rely on the guarantee. -/
theorem keeps_getStore_bind {f : Store → Eval β} (hf : ∀ σ, G.Holds σ → G.Keeps d (f σ)) :
    G.Keeps d (getStore >>= f) := by
  intro m hd hm
  exact hf m.store hm m hd hm

/-- What follows a look at the call depth may rely on it. -/
theorem keeps_getDepth_bind {f : Nat → Eval β} (hf : G.Keeps d (f d)) :
    G.Keeps d (getDepth >>= f) := by
  intro m hd hm
  have heq : (getDepth >>= f) m = f d m := by
    rw [← hd]
    rfl
  unfold after Exhausts
  rw [heq]
  exact hf m hd hm

/-- An evaluation that yields a result and changes no function object. -/
theorem keeps_of_step {x : Eval α} {value : Machine → α} {change : Machine → Machine}
    (hx : ∀ m, x m = .ok (value m) (change m)) (hscope : ∀ m, (change m).scope = m.scope)
    (hdepth : ∀ m, (change m).depth = m.depth)
    (hfunctions : ∀ m, (change m).store.functions = m.store.functions) : G.Keeps d x := by
  intro m _ hm
  rw [after_of_ok (hx m)]
  exact ⟨⟨hscope m, hdepth m, hm.of_functions_eq (hfunctions m)⟩,
    fun _ => not_exhausts_of_ok (hx m)⟩

theorem keeps_modifyStore {change : Store → Store}
    (h : ∀ σ, (change σ).functions = σ.functions) : G.Keeps d (modifyStore change) :=
  keeps_of_step (fun _ => rfl) (fun _ => rfl) (fun _ => rfl) fun m => h m.store

theorem keeps_newArray (items : Array Value) : G.Keeps d (newArray items) :=
  keeps_of_step (fun _ => rfl) (fun _ => rfl) (fun _ => rfl) fun _ => rfl

theorem keeps_newMap (entries : Dict Value) : G.Keeps d (newMap entries) :=
  keeps_of_step (fun _ => rfl) (fun _ => rfl) (fun _ => rfl) fun _ => rfl

theorem keeps_newScope (outer : ScopeId) (bindings : Dict Value) :
    G.Keeps d (newScope outer bindings) :=
  keeps_of_step (fun _ => rfl) (fun _ => rfl) (fun _ => rfl) fun _ => rfl

theorem keeps_newInnerScope (bindings : Dict Value) : G.Keeps d (newInnerScope bindings) :=
  keeps_of_step (fun _ => rfl) (fun _ => rfl) (fun _ => rfl) fun _ => rfl

theorem keeps_define (name : String) (value : Value) : G.Keeps d (define name value) :=
  keeps_of_step (fun _ => rfl) (fun _ => rfl) (fun _ => rfl) fun _ => rfl

/-- A new function object must be good. -/
theorem keeps_newFunction {f : Function} (hf : G.good f) : G.Keeps d (newFunction f) := by
  intro m _ hm
  refine ⟨⟨rfl, rfl, fun g hg => ?_⟩, fun _ => not_exhausts_of_ok rfl⟩
  have hg : g ∈ m.store.functions.push f := hg
  rcases Array.mem_push.mp hg with hold | hnew
  · exact hm g hold
  · rw [hnew]
    exact hf

theorem keeps_newClosure {name : Option String} {params : List String}
    {body : List (Stmt Unit)} (hf : ∀ scope, G.good (.closure ⟨name, params, body, scope⟩)) :
    G.Keeps d (newClosure name params body) := by
  intro m hd hm
  exact keeps_newFunction (hf m.scope) m hd hm

theorem keeps_lookup (name : String) : G.Keeps d (lookup name) := by
  intro m hd hm
  unfold after Exhausts lookup
  cases m.store.lookup m.scope name with
  | some v => exact keeps_pure v m hd hm
  | none => exact keeps_raise (α := Value) _ m hd hm

theorem keeps_assign (name : String) (value : Value) : G.Keeps d (assign name value) := by
  intro m hd hm
  unfold after Exhausts assign Store.assign
  cases m.store.resolve? m.scope name with
  | some owner => exact ⟨⟨rfl, rfl, hm.of_functions_eq rfl⟩, fun _ => by simp⟩
  | none => exact keeps_raise (α := Unit) _ m hd hm

theorem keeps_printLine (text : String) : G.Keeps d (printLine text) := by
  intro m hd hm
  unfold after Exhausts printLine
  cases m.sink.writeLine text with
  | mk accepted sink =>
    cases accepted with
    | true => exact ⟨⟨rfl, rfl, hm⟩, fun _ => by simp⟩
    | false => exact ⟨⟨rfl, rfl, hm⟩, fun _ => by simp [raise, stop]⟩

/-- An evaluation in another scope comes back to the scope before it. -/
theorem keeps_within {x : Eval α} (scope : ScopeId) (hx : G.Keeps d x) :
    G.Keeps d (within scope x) := by
  intro m hd hm
  obtain ⟨hkept, hfuel⟩ := hx { m with scope := scope } hd hm
  unfold after Exhausts within at *
  cases h : x { m with scope := scope } with
  | ok a m' =>
    rw [h] at hkept
    exact ⟨⟨rfl, hkept.depth, hkept.holds⟩, fun _ => by simp⟩
  | error s m' =>
    rw [h] at hkept hfuel
    exact ⟨⟨rfl, hkept.depth, hkept.holds⟩, fun ht => by simpa using hfuel ht⟩

/-- A function body runs one call deeper, and comes back to the depth before it. -/
theorem keeps_calling {x : Eval α} (hx : G.Keeps (d + 1) x) : G.Keeps d (calling x) := by
  intro m hd hm
  obtain ⟨hkept, hfuel⟩ := hx { m with depth := m.depth + 1 } (congrArg (· + 1) hd) hm
  unfold after Exhausts calling at *
  cases h : x { m with depth := m.depth + 1 } with
  | ok a m' =>
    rw [h] at hkept
    have hdepth : m'.depth - 1 = m.depth := Nat.sub_eq_of_eq_add hkept.depth
    exact ⟨⟨hkept.scope, hdepth, hkept.holds⟩, fun _ => by simp⟩
  | error s m' =>
    rw [h] at hkept hfuel
    have hdepth : m'.depth - 1 = m.depth := Nat.sub_eq_of_eq_add hkept.depth
    exact ⟨⟨hkept.scope, hdepth, hkept.holds⟩, fun ht => by simpa using hfuel ht⟩

/-- A handler starts from the machine of the moment at which the value was raised. -/
theorem keeps_catching {x : Eval α} {handler : Value → Eval α} (hx : G.Keeps d x)
    (hhandler : ∀ payload, G.Keeps d (handler payload)) : G.Keeps d (catching x handler) := by
  intro m hd hm
  obtain ⟨hkept, hfuel⟩ := hx m hd hm
  unfold after Exhausts catching at *
  cases h : x m with
  | ok a m' =>
    rw [h] at hkept
    exact ⟨hkept, fun _ => by simp⟩
  | error s m' =>
    rw [h] at hkept hfuel
    cases s with
    | raise payload =>
      obtain ⟨hkept', hfuel'⟩ := hhandler payload m' (hkept.depth.trans hd) hkept.holds
      exact ⟨hkept.trans hkept', hfuel'⟩
    | exit code => exact ⟨hkept, fun _ => by simp⟩
    | fault f => exact ⟨hkept, fun _ => by simp⟩
    | outOfFuel => exact ⟨hkept, hfuel⟩

/-! ### Access and native functions -/

theorem keeps_readIndex (container key : Value) : G.Keeps d (readIndex container key) := by
  unfold readIndex
  refine keeps_getStore_bind fun σ _ => ?_
  split
  · refine keeps_bind (keeps_ofExcept _) fun i => ?_
    split
    · exact keeps_pure _
    · exact keeps_stop (by simp)
  · refine keeps_bind (keeps_ofExcept _) fun i => ?_
    split
    · exact keeps_pure _
    · exact keeps_stop (by simp)
  · exact keeps_pure _
  · exact keeps_raise _

theorem keeps_writeIndex (container key value : Value) :
    G.Keeps d (writeIndex container key value) := by
  unfold writeIndex
  split
  · refine keeps_getStore_bind fun σ _ => keeps_bind (keeps_ofExcept _) fun i => ?_
    split
    · exact keeps_modifyStore fun _ => rfl
    · exact keeps_stop (by simp)
  · exact keeps_modifyStore fun _ => rfl
  · exact keeps_raise _

theorem keeps_writeField (container : Value) (name : String) (value : Value) :
    G.Keeps d (writeField container name value) := by
  unfold writeField
  split
  · exact keeps_modifyStore fun _ => rfl
  · exact keeps_raise _

theorem keeps_readMethod (target : Value) (name : String) :
    G.Keeps d (readMethod target name) := by
  unfold readMethod
  split
  · exact keeps_newFunction (G.good_native _)
  · split
    · exact keeps_pure _
    · exact keeps_raise _

theorem keeps_readMember (target : Value) (name : String) :
    G.Keeps d (readMember target name) := by
  unfold readMember
  refine keeps_getStore_bind fun σ _ => ?_
  split
  · split
    · exact keeps_pure _
    · exact keeps_readMethod _ _
  · exact keeps_readMethod _ _

theorem keeps_mismatch (n : Native) (receiver : Option Value) :
    G.Keeps d (n.mismatch receiver) :=
  keeps_raise _

theorem keeps_native_run (n : Native) (receiver : Option Value) (args : List Value) :
    G.Keeps d (n.run receiver args) := by
  cases n with
  | println =>
    exact keeps_getStore_bind fun σ _ => keeps_bind (keeps_printLine _) fun _ => keeps_pure _
  | exit =>
    simp only [Native.run, Native.runExit]
    split
    · exact keeps_stop (by simp)
    · exact keeps_bind (keeps_ofExcept _) fun x => keeps_stop (by simp)
  | length =>
    simp only [Native.run, Native.runLength]
    refine keeps_getStore_bind fun σ _ => ?_
    split
    · exact keeps_pure _
    · exact keeps_pure _
    · exact keeps_pure _
    · exact keeps_mismatch _ _
  | push =>
    simp only [Native.run, Native.runPush]
    split
    · split
      · exact keeps_stop (by simp)
      · exact keeps_bind (keeps_modifyStore fun _ => rfl) fun _ =>
          keeps_getStore_bind fun σ _ => keeps_pure _
    · exact keeps_mismatch _ _
  | pop =>
    simp only [Native.run, Native.runPop]
    split
    · exact keeps_getStore_bind fun σ _ =>
        keeps_bind (keeps_modifyStore fun _ => rfl) fun _ => keeps_pure _
    · exact keeps_mismatch _ _
  | upper =>
    simp only [Native.run, Native.runUpper]
    split
    · exact keeps_pure _
    · exact keeps_mismatch _ _
  | lower =>
    simp only [Native.run, Native.runLower]
    split
    · exact keeps_pure _
    · exact keeps_mismatch _ _
  | keys =>
    simp only [Native.run, Native.runKeys]
    split
    · exact keeps_getStore_bind fun σ _ => keeps_newArray _
    · exact keeps_mismatch _ _
  | has =>
    simp only [Native.run, Native.runHas]
    split
    · exact keeps_stop (by simp)
    · split
      · exact keeps_getStore_bind fun σ _ => keeps_pure _
      · exact keeps_pure _
      · exact keeps_mismatch _ _

theorem keeps_native_call (n : Native) (receiver : Option Value) (args : List Value) :
    G.Keeps d (n.call receiver args) := by
  unfold Native.call
  split
  · exact keeps_raise _
  · exact keeps_bind (keeps_ofExcept _) fun _ => keeps_native_run n receiver args

/-! ### Lists of trees -/

section Trees

variable {eval : Expr Unit → Eval Value} {exec : Stmt Unit → Eval Completion}

theorem keeps_evalAll {es : List (Expr Unit)} (h : ∀ e ∈ es, G.Keeps d (eval e)) :
    G.Keeps d (evalAll eval es) := by
  induction es with
  | nil => exact keeps_pure _
  | cons e es ih =>
    have hes : G.Keeps d (evalAll eval es) := ih fun e' he' => h e' (.tail e he')
    exact keeps_bind (h e (.head es)) fun v => keeps_bind hes fun vs => keeps_pure _

theorem keeps_evalEntries {es : List (String × Expr Unit)}
    (h : ∀ e ∈ es, G.Keeps d (eval e.2)) : G.Keeps d (evalEntries eval es) := by
  induction es with
  | nil => exact keeps_pure _
  | cons e es ih =>
    have hes : G.Keeps d (evalEntries eval es) := ih fun e' he' => h e' (.tail e he')
    exact keeps_bind (h e (.head es)) fun v => keeps_bind hes fun vs => keeps_pure _

theorem keeps_runAll {last : Value} {body : List (Stmt Unit)}
    (h : ∀ s ∈ body, G.Keeps d (exec s)) : G.Keeps d (runAll exec last body) := by
  induction body generalizing last with
  | nil => exact keeps_pure _
  | cons s body ih =>
    refine keeps_bind (h s (.head body)) fun flow => ?_
    cases flow with
    | next v => exact ih fun s' hs' => h s' (.tail s hs')
    | ret v => exact keeps_pure _
    | brk => exact keeps_pure _
    | cont => exact keeps_pure _

theorem keeps_runInner {bindings : Dict Value} {body : List (Stmt Unit)}
    (h : ∀ s ∈ body, G.Keeps d (exec s)) : G.Keeps d (runInner exec bindings body) :=
  keeps_bind (keeps_newInnerScope bindings) fun scope => keeps_within scope (keeps_runAll h)

theorem keeps_forLoop {body : Value → Eval Completion} (h : ∀ v, G.Keeps d (body v))
    (items : List Value) : G.Keeps d (forLoop body items) := by
  induction items with
  | nil => exact keeps_pure _
  | cons item items ih =>
    refine keeps_bind (h item) fun flow => ?_
    cases flow with
    | next v => exact ih
    | ret v => exact keeps_pure _
    | brk => exact keeps_pure _
    | cont => exact ih

/-- A loop with a condition is the one construct whose fuel nothing bounds. -/
theorem keeps_whileLoop {condition : Eval Value} {body : Eval Completion} (hG : ¬ G.total)
    (hcondition : G.Keeps d condition) (hbody : G.Keeps d body) (rounds : Nat) :
    G.Keeps d (whileLoop condition body rounds) := by
  induction rounds with
  | zero =>
    intro m _ hm
    exact ⟨.refl hm, fun ht => absurd ht hG⟩
  | succ rounds ih =>
    refine keeps_bind hcondition fun v => ?_
    split
    · refine keeps_bind hbody fun flow => ?_
      cases flow with
      | next v => exact ih
      | ret v => exact keeps_pure _
      | brk => exact keeps_pure _
      | cont => exact ih
    · exact keeps_pure _

/-- The bodies of good functions, one call deeper, keep the guarantee. -/
def KeepsBodies (G : Guarantee) (d : Nat) (exec : Stmt Unit → Eval Completion) : Prop :=
  d < maxCallDepth → ∀ c : Closure, G.good (.closure c) → ∀ s ∈ c.body, G.Keeps (d + 1) (exec s)

theorem keeps_callClosure {c : Closure} (hc : G.good (.closure c))
    (h : G.KeepsBodies d exec) (args : List Value) : G.Keeps d (callClosure exec c args) := by
  unfold callClosure
  split
  · exact keeps_raise _
  · refine keeps_getDepth_bind ?_
    split
    · exact keeps_raise _
    · rename_i hdepth
      -- the check of the depth is what leaves room for one more call
      have hbody : G.Keeps (d + 1) (runAll exec .undefined c.body) :=
        keeps_runAll (h (Nat.lt_of_not_le hdepth) c hc)
      refine keeps_bind (keeps_newScope _ _) fun scope => ?_
      refine keeps_bind (keeps_calling (keeps_within scope hbody)) fun flow => ?_
      cases flow with
      | next v => exact keeps_pure _
      | ret v => exact keeps_pure _
      | brk => exact keeps_raise _
      | cont => exact keeps_raise _

theorem keeps_call (h : G.KeepsBodies d exec) (callee : Value) (receiver : Option Value)
    (args : List Value) : G.Keeps d (Eval.call exec callee receiver args) := by
  unfold Eval.call
  split
  · refine keeps_getStore_bind fun σ hσ => ?_
    split
    · exact keeps_native_call _ _ _
    · rename_i c hc
      exact keeps_callClosure (hσ.function? hc) h args
    · exact keeps_stop (by simp)
  · exact keeps_raise _

theorem keeps_evalOption {e : Option (Expr Unit)} (h : ∀ e' ∈ e.toList, G.Keeps d (eval e')) :
    G.Keeps d (evalOption eval e) := by
  cases e with
  | none => exact keeps_pure _
  | some e => exact h e (.head _)

theorem keeps_evalCallee {callee : Expr Unit} (h : G.Keeps d (eval callee.calleePart)) :
    G.Keeps d (evalCallee eval callee) := by
  unfold evalCallee
  split
  · exact keeps_bind h fun target => keeps_bind (keeps_readMember _ _) fun f => keeps_pure _
  · next hne =>
    rw [Expr.calleePart_of_ne_field hne] at h
    exact keeps_bind h fun f => keeps_pure _

theorem keeps_assignTo {target : Target Unit} (h : ∀ e ∈ target.parts, G.Keeps d (eval e))
    (value : Value) : G.Keeps d (assignTo eval value target) := by
  cases target with
  | var a name => exact keeps_assign _ _
  | field a container name =>
    exact keeps_bind (h container (.head _)) fun _ => keeps_writeField _ _ _
  | index a container key =>
    refine keeps_bind (h container (.head _)) fun _ => ?_
    exact keeps_bind (h key (.tail _ (.head _))) fun _ => keeps_writeIndex _ _ _

/-- Function objects with the given code are good, whatever their name, parameters and scope. -/
def GoodCode (G : Guarantee) (body : List (Stmt Unit)) : Prop :=
  ∀ name params scope, G.good (.closure ⟨name, params, body, scope⟩)

/-- **One level of an expression** keeps a guarantee if its parts and the bodies of functions do. -/
theorem keeps_evalWith {e : Expr Unit} (heval : ∀ e' ∈ e.parts, G.Keeps d (eval e'))
    (hexec : G.KeepsBodies d exec) (hcode : ∀ body ∈ e.codes, G.GoodCode body) :
    G.Keeps d (e.evalWith eval exec) := by
  cases e with
  | number a x => exact keeps_pure _
  | text a s => exact keeps_pure _
  | boolean a b => exact keeps_pure _
  | undefined a => exact keeps_pure _
  | var a name => exact keeps_lookup name
  | binary a op left right =>
    refine keeps_bind (heval left (.head _)) fun l => ?_
    split
    · exact keeps_pure _
    · refine keeps_bind (heval right (.tail _ (.head _))) fun r => ?_
      exact keeps_getStore_bind fun σ _ => keeps_ofExcept _
  | unary a op operand => exact keeps_bind (heval operand (.head _)) fun v => keeps_ofExcept _
  | assign a target value =>
    refine keeps_bind (heval value (.head _)) fun v => ?_
    have htarget : G.Keeps d (assignTo eval v target) :=
      keeps_assignTo (fun e' he' => heval e' (.tail _ he')) v
    exact keeps_bind htarget fun _ => keeps_pure _
  | call a callee args =>
    have hargs : G.Keeps d (evalAll eval args) := keeps_evalAll fun e' he' => heval e' (.tail _ he')
    refine keeps_bind (keeps_evalCallee (heval callee.calleePart (.head _))) fun p => ?_
    exact keeps_bind hargs fun vs => keeps_call hexec p.1 p.2 vs
  | array a items => exact keeps_bind (keeps_evalAll heval) fun vs => keeps_newArray _
  | map a entries =>
    have hentries : G.Keeps d (evalEntries eval entries) :=
      keeps_evalEntries fun e' he' => heval e'.2 (List.mem_map_of_mem he')
    exact keeps_bind hentries fun vs => keeps_newMap _
  | index a container key =>
    refine keeps_bind (heval container (.head _)) fun target => ?_
    exact keeps_bind (heval key (.tail _ (.head _))) fun k => keeps_readIndex _ _
  | field a container name =>
    exact keeps_bind (heval container (.head _)) fun target => keeps_readMember _ _
  | lambda a name params body => exact keeps_newClosure (hcode body (.head _) name params)

/-- **One level of a statement** keeps a guarantee if its parts and its bodies do.  A loop with a
condition keeps none that asks for enough fuel. -/
theorem keeps_execWith {s : Stmt Unit} {rounds : Nat} (hwhile : G.total → s.isWhile = false)
    (heval : ∀ e ∈ s.parts, G.Keeps d (eval e)) (hexec : ∀ s' ∈ s.bodies, G.Keeps d (exec s'))
    (hcode : ∀ body ∈ s.codes, G.GoodCode body) :
    G.Keeps d (s.execWith rounds eval exec) := by
  cases s with
  | letVar a name init =>
    refine keeps_bind (keeps_evalOption heval) fun v => ?_
    exact keeps_bind (keeps_define name v) fun _ => keeps_pure _
  | function a name params body =>
    refine keeps_bind (keeps_newClosure (hcode body (.head _) (some name) params)) fun f => ?_
    exact keeps_bind (keeps_define name f) fun _ => keeps_pure _
  | expr a e => exact keeps_bind (heval e (.head _)) fun v => keeps_pure _
  | block a body => exact keeps_runInner hexec
  | ifElse a condition yes no =>
    refine keeps_bind (heval condition (.head _)) fun v => ?_
    split
    · have hyes : G.Keeps d (runInner exec .empty yes) :=
        keeps_runInner fun s' hs' => hexec s' (List.mem_append_left _ hs')
      exact keeps_bind hyes fun flow => keeps_pure _
    · cases no with
      | some no =>
        have hno : G.Keeps d (runInner exec .empty no) :=
          keeps_runInner fun s' hs' => hexec s' (List.mem_append_right _ hs')
        exact keeps_bind hno fun flow => keeps_pure _
      | none => exact keeps_pure _
  | whileLoop a condition body =>
    have htotal : ¬ G.total := fun ht => Bool.noConfusion (hwhile ht)
    exact keeps_whileLoop htotal (heval condition (.head _)) (keeps_runInner hexec) rounds
  | forEach a name items body =>
    refine keeps_bind (heval items (.head _)) fun v => keeps_getStore_bind fun σ _ => ?_
    refine keeps_bind (keeps_ofExcept _) fun vs => ?_
    exact keeps_forLoop (fun v => keeps_runInner hexec) vs
  | tryCatch a body name handler =>
    have hbody : G.Keeps d (runInner exec .empty body) :=
      keeps_runInner fun s' hs' => hexec s' (List.mem_append_left _ hs')
    have hhandler : ∀ payload, G.Keeps d (runBinding exec name handler payload) := fun payload =>
      keeps_runInner fun s' hs' => hexec s' (List.mem_append_right _ hs')
    exact keeps_bind (keeps_catching hbody hhandler) fun flow => keeps_pure _
  | throw a e => exact keeps_bind (heval e (.head _)) fun v => keeps_stop (by simp)
  | ret a e => exact keeps_bind (keeps_evalOption heval) fun v => keeps_pure _
  | brk a => exact keeps_pure _
  | cont a => exact keeps_pure _

end Trees

end Guarantee

/-! ## Scope and call depth -/

/-- The guarantee that asks only for the scope and the call depth. -/
def Guarantee.frame : Guarantee := ⟨fun _ => True, fun _ => trivial, False⟩

theorem Guarantee.holds_frame (σ : Store) : Guarantee.frame.Holds σ := fun _ _ => trivial

/-- Evaluation restores the scope and the call depth, however it ends. -/
theorem keeps_frame (fuel : Nat) :
    (∀ d e, Guarantee.frame.Keeps d (evalExpr fuel e)) ∧
      ∀ d s, Guarantee.frame.Keeps d (execStmt fuel s) := by
  induction fuel with
  | zero =>
    -- without fuel nothing happens, and running out of it is allowed
    exact ⟨fun _ _ _ _ hm => ⟨.refl hm, False.elim⟩, fun _ _ _ _ hm => ⟨.refl hm, False.elim⟩⟩
  | succ fuel ih =>
    obtain ⟨heval, hexec⟩ := ih
    constructor
    · intro d e
      refine Guarantee.keeps_evalWith (fun e' _ => heval d e') ?_ fun _ _ _ _ _ => trivial
      exact fun _ c _ s _ => hexec (d + 1) s
    · intro d s
      exact Guarantee.keeps_execWith False.elim (fun e _ => heval d e) (fun s' _ => hexec d s')
        fun _ _ _ _ _ => trivial

end Script
