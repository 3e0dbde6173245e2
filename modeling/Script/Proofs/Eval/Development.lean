import Script.Proofs.Eval.CallDepth
import Script.Proofs.Eval.Lockstep

/-!
# What an evaluation does to a store

Whatever a program does, its store develops in few ways.  In the scope in which it runs, it makes
objects, declares names, assigns to names and changes arrays and maps.  A function that it makes
remembers that scope.  A block runs in a new scope inside of it, and a call runs in a new scope
inside the one that the function remembers.  No scope is made anywhere else, and the scope around a
scope never changes.

So what holds of a store at the end of a run can be shown from these few ways alone, with no more
looks at the language.

## Main definitions

* `Store.Change`: one change, made in a scope.
* `Store.Develops`: the changes of an evaluation, with those of the bodies that it enters.
* `Eval.Developing`: the evaluations that do nothing else to a store.

## Main results

* `developing_eval_exec`: evaluation does nothing else to a store.
* `developing_run`, `developing_evaluate`: tasks, and statements at the top level.
-/

namespace Script

open Eval Outcome

namespace Store

/-- **A change of a store**, made in the scope `here`. -/
inductive Change (here : ScopeId) (σ : Store) : Store → Prop where
  | newArray (items : Array Value) : Change here σ (σ.newArray items).2
  | newMap (entries : Dict Value) : Change here σ (σ.newMap entries).2
  | newNative (n : Native) : Change here σ (σ.newFunction (.native n)).2
  | newClosure (name : Option String) (params : List String) (body : List (Stmt Unit)) :
      Change here σ (σ.newFunction (.closure ⟨name, params, body, here⟩)).2
  | define (name : String) (value : Value) : Change here σ (σ.define here name value)
  | assign (name : String) (value : Value) : Change here σ (σ.assign here name value).2
  | modifyArray (a : ArrayId) (f : Array Value → Array Value) : Change here σ (σ.modifyArray a f)
  | modifyMap (m : MapId) (f : Dict Value → Dict Value) : Change here σ (σ.modifyMap m f)

/-- **How a store develops** while something is evaluated in the scope `here`. -/
inductive Develops : ScopeId → Store → Store → Prop where
  | refl {here : ScopeId} {σ : Store} : Develops here σ σ
  | change {here : ScopeId} {σ τ : Store} (h : σ.Change here τ) : Develops here σ τ
  | trans {here : ScopeId} {σ τ υ : Store} (h : Develops here σ τ) (h' : Develops here τ υ) :
      Develops here σ υ
  /-- A body runs in a new scope. -/
  | body {here : ScopeId} {σ τ : Store} (bindings : Dict Value)
      (h : Develops ⟨σ.scopes.size⟩ (σ.newScope (some here) bindings).2 τ) : Develops here σ τ
  /-- The body of a function runs in a new scope inside the one that the function remembers. -/
  | call {here : ScopeId} {σ τ : Store} {f : FunctionId} {c : Closure}
      (hf : σ.function? f = some (.closure c)) (bindings : Dict Value)
      (h : Develops ⟨σ.scopes.size⟩ (σ.newScope (some c.scope) bindings).2 τ) : Develops here σ τ

end Store

namespace Eval

variable {α β γ : Type} {x : Eval α} {y : Eval β} {f : α → Eval β} {m : Machine}

/-- From the machine `m`, an evaluation only develops the store, and comes back to its scope. -/
structure DevelopsFrom (m : Machine) (x : Eval α) : Prop where
  scope : (after x m).scope = m.scope
  store : m.store.Develops m.scope (after x m).store

/-- From every machine, an evaluation only develops the store. -/
def Developing (x : Eval α) : Prop := ∀ m, DevelopsFrom m x

/-! ## Combinators -/

theorem developsFrom_of_after (h : after x m = m) : DevelopsFrom m x := by
  refine ⟨congrArg Machine.scope h, ?_⟩
  rw [h]
  exact .refl

theorem DevelopsFrom.of_after_eq (hy : DevelopsFrom m y) (heq : after x m = after y m) :
    DevelopsFrom m x := by
  obtain ⟨hscope, hstore⟩ := hy
  rw [← heq] at hscope hstore
  exact ⟨hscope, hstore⟩

/-- What follows runs in the scope to which the evaluation before it has come back. -/
theorem DevelopsFrom.followed {z : Eval γ} (hx : DevelopsFrom m x)
    (hy : DevelopsFrom (after x m) y) (heq : after z m = after y (after x m)) :
    DevelopsFrom m z := by
  obtain ⟨hscope, hstore⟩ := hy
  rw [hx.scope] at hscope hstore
  rw [← heq] at hscope hstore
  exact ⟨hscope, hx.store.trans hstore⟩

theorem developing_pure (a : α) : Developing (pure a : Eval α) :=
  fun _ => developsFrom_of_after rfl

theorem developing_stop (s : Stop) : Developing (stop s : Eval α) :=
  fun _ => developsFrom_of_after rfl

theorem developing_raise (e : EvalError) : Developing (raise e : Eval α) := developing_stop _

theorem developing_ofExcept (r : Except EvalError α) : Developing (ofExcept r) := by
  cases r with
  | ok a => exact developing_pure a
  | error e => exact developing_raise e

/-- **Sequence.** -/
theorem developing_bind (hx : Developing x) (hf : ∀ a, Developing (f a)) :
    Developing (x >>= f) := by
  intro m
  cases h : x m with
  | ok a m' =>
    have hfirst := after_of_ok h
    refine (hx m).followed (hf a _) ?_
    rw [hfirst]
    unfold after
    rw [bind_of_ok h]
  | error s m' =>
    refine (hx m).of_after_eq ?_
    unfold after
    rw [bind_of_error h, h]

theorem developing_getStore : Developing getStore := fun _ => developsFrom_of_after rfl

/-- One change. -/
theorem developing_of_change {value : Machine → α} {change : Machine → Store}
    (hx : ∀ m, x m = .ok (value m) { m with store := change m })
    (hchange : ∀ m : Machine, m.store.Change m.scope (change m)) : Developing x := by
  intro m
  refine ⟨?_, ?_⟩
  · rw [after_of_ok (hx m)]
  · rw [after_of_ok (hx m)]
    exact .change (hchange m)

theorem developing_modifyArray (a : ArrayId) (g : Array Value → Array Value) :
    Developing (modifyStore fun σ => σ.modifyArray a g) :=
  developing_of_change (fun _ => rfl) fun _ => .modifyArray a g

theorem developing_modifyMap (a : MapId) (g : Dict Value → Dict Value) :
    Developing (modifyStore fun σ => σ.modifyMap a g) :=
  developing_of_change (fun _ => rfl) fun _ => .modifyMap a g

theorem developing_newArray (items : Array Value) : Developing (newArray items) :=
  developing_of_change (fun _ => rfl) fun _ => .newArray items

theorem developing_newMap (entries : Dict Value) : Developing (newMap entries) :=
  developing_of_change (fun _ => rfl) fun _ => .newMap entries

theorem developing_newNative (n : Native) : Developing (newFunction (.native n)) :=
  developing_of_change (fun _ => rfl) fun _ => .newNative n

theorem developing_newClosure (name : Option String) (params : List String)
    (body : List (Stmt Unit)) : Developing (newClosure name params body) :=
  developing_of_change (fun _ => rfl) fun _ => .newClosure name params body

theorem developing_define (name : String) (value : Value) : Developing (define name value) :=
  developing_of_change (fun _ => rfl) fun _ => .define name value

theorem developing_lookup (name : String) : Developing (lookup name) := by
  refine fun m => developsFrom_of_after ?_
  unfold after lookup
  cases m.store.lookup m.scope name <;> rfl

theorem developing_assign (name : String) (value : Value) : Developing (assign name value) := by
  intro m
  have heq : after (assign name value) m =
      { m with store := (m.store.assign m.scope name value).2 } := by
    unfold after assign
    cases m.store.assign m.scope name value with
    | mk found store => cases found <;> rfl
  refine ⟨?_, ?_⟩
  · rw [heq]
  · rw [heq]
    exact .change (.assign name value)

theorem developing_printLine (text : String) : Developing (printLine text) := by
  intro m
  have hline : (after (printLine text) m).scope = m.scope ∧
      (after (printLine text) m).store = m.store := by
    unfold after printLine
    cases m.sink.writeLine text with
    | mk accepted sink => cases accepted <;> exact ⟨rfl, rfl⟩
  refine ⟨hline.1, ?_⟩
  rw [hline.2]
  exact .refl

/-- A handler runs from the machine that the body has left. -/
theorem developing_catching {handler : Value → Eval α} (hx : Developing x)
    (hhandler : ∀ payload, Developing (handler payload)) : Developing (catching x handler) := by
  intro m
  by_cases hraise : ∃ payload m', x m = .error (.raise payload) m'
  · obtain ⟨payload, m', h⟩ := hraise
    have hfirst := after_of_error h
    refine (hx m).followed (hhandler payload _) ?_
    rw [hfirst]
    unfold after catching
    rw [h]
  · refine (hx m).of_after_eq ?_
    unfold after catching
    cases h : x m with
    | ok a m' => rfl
    | error s m' =>
      cases s with
      | raise payload => exact absurd ⟨payload, m', h⟩ hraise
      | exit _ | fault _ | outOfFuel => rfl

/-! ## Access and native functions -/

theorem developing_readIndex (container key : Value) : Developing (readIndex container key) := by
  unfold readIndex
  refine developing_bind developing_getStore fun σ => ?_
  split
  · refine developing_bind (developing_ofExcept _) fun i => ?_
    split
    · exact developing_pure _
    · exact developing_stop _
  · refine developing_bind (developing_ofExcept _) fun i => ?_
    split
    · exact developing_pure _
    · exact developing_stop _
  · exact developing_pure _
  · exact developing_raise _

theorem developing_writeIndex (container key value : Value) :
    Developing (writeIndex container key value) := by
  unfold writeIndex
  split
  · refine developing_bind developing_getStore fun σ => ?_
    refine developing_bind (developing_ofExcept _) fun i => ?_
    split
    · exact developing_modifyArray _ _
    · exact developing_stop _
  · exact developing_modifyMap _ _
  · exact developing_raise _

theorem developing_writeField (container : Value) (name : String) (value : Value) :
    Developing (writeField container name value) := by
  unfold writeField
  split
  · exact developing_modifyMap _ _
  · exact developing_raise _

theorem developing_readMethod (target : Value) (name : String) :
    Developing (readMethod target name) := by
  unfold readMethod
  split
  · exact developing_newNative _
  · split
    · exact developing_pure _
    · exact developing_raise _

theorem developing_readMember (target : Value) (name : String) :
    Developing (readMember target name) := by
  unfold readMember
  refine developing_bind developing_getStore fun σ => ?_
  split
  · split
    · exact developing_pure _
    · exact developing_readMethod _ _
  · exact developing_readMethod _ _

theorem developing_native_run (n : Native) (receiver : Option Value) (args : List Value) :
    Developing (n.run receiver args) := by
  cases n with
  | println =>
    refine developing_bind developing_getStore fun σ => ?_
    exact developing_bind (developing_printLine _) fun _ => developing_pure _
  | exit =>
    simp only [Native.run, Native.runExit]
    split
    · exact developing_stop _
    · exact developing_bind (developing_ofExcept _) fun _ => developing_stop _
  | length =>
    refine developing_bind developing_getStore fun σ => ?_
    split
    · exact developing_pure _
    · exact developing_pure _
    · exact developing_pure _
    · exact developing_raise _
  | push =>
    simp only [Native.run, Native.runPush]
    split
    · split
      · exact developing_stop _
      · refine developing_bind (developing_modifyArray _ _) fun _ => ?_
        exact developing_bind developing_getStore fun σ => developing_pure _
    · exact developing_raise _
  | pop =>
    simp only [Native.run, Native.runPop]
    split
    · refine developing_bind developing_getStore fun σ => ?_
      exact developing_bind (developing_modifyArray _ _) fun _ => developing_pure _
    · exact developing_raise _
  | upper =>
    simp only [Native.run, Native.runUpper]
    split
    · exact developing_pure _
    · exact developing_raise _
  | lower =>
    simp only [Native.run, Native.runLower]
    split
    · exact developing_pure _
    · exact developing_raise _
  | keys =>
    simp only [Native.run, Native.runKeys]
    split
    · exact developing_bind developing_getStore fun σ => developing_newArray _
    · exact developing_raise _
  | has =>
    simp only [Native.run, Native.runHas]
    split
    · exact developing_stop _
    · split
      · exact developing_bind developing_getStore fun σ => developing_pure _
      · exact developing_pure _
      · exact developing_raise _

theorem developing_native_call (n : Native) (receiver : Option Value) (args : List Value) :
    Developing (n.call receiver args) := by
  unfold Native.call
  split
  · exact developing_raise _
  · exact developing_bind (developing_ofExcept _) fun _ => developing_native_run n receiver args

/-! ## Bodies -/

section Trees

variable {eval : Expr Unit → Eval Value} {exec : Stmt Unit → Eval Completion}

theorem developing_runAll (hexec : ∀ s, Developing (exec s)) (last : Value)
    (body : List (Stmt Unit)) : Developing (runAll exec last body) := by
  induction body generalizing last with
  | nil => exact developing_pure _
  | cons s body ih =>
    refine developing_bind (hexec s) fun flow => ?_
    cases flow with
    | next v => exact ih v
    | ret _ | brk | cont => exact developing_pure _

/-- A body leaves what its statements leave, and the scope is that around it. -/
theorem after_runInner (bindings : Dict Value) (body : List (Stmt Unit)) (m : Machine) :
    after (runInner exec bindings body) m =
      { after (runAll exec .undefined body) (m.enterBody bindings) with scope := m.scope } := by
  have heq : runInner exec bindings body m =
      runBody exec body (m.enterBody bindings).scope
        { m with store := (m.enterBody bindings).store } := rfl
  have hmachine : (⟨(m.enterBody bindings).store, m.sink, (m.enterBody bindings).scope, m.depth⟩ :
      Machine) = m.enterBody bindings := rfl
  unfold after
  rw [heq, runBody, within, hmachine]
  cases runAll exec .undefined body (m.enterBody bindings) <;> rfl

theorem developing_runInner (hexec : ∀ s, Developing (exec s)) (bindings : Dict Value)
    (body : List (Stmt Unit)) : Developing (runInner exec bindings body) := by
  intro m
  have hbody := developing_runAll hexec .undefined body (m.enterBody bindings)
  refine ⟨?_, ?_⟩
  · rw [after_runInner]
  · rw [after_runInner]
    exact .body bindings hbody.store

/-- A call leaves what the body of the function leaves, in the scope before it. -/
theorem after_callClosure {c : Closure} {args : List Value}
    (hargs : args.length = c.params.length) (hdepth : m.depth < maxCallDepth) :
    after (callClosure exec c args) m =
      m.leaveBody (after (runAll exec .undefined c.body) (m.enterCall c args)) := by
  unfold after
  cases h : runAll exec .undefined c.body (m.enterCall c args) with
  | ok flow m' =>
    rw [callClosure_of_ok hargs hdepth h]
    cases flow <;> rfl
  | error s m' => rw [Visit.callClosure_of_error hargs hdepth h]

theorem developsFrom_callClosure (hexec : ∀ s, Developing (exec s)) {f : FunctionId} {c : Closure}
    (hf : m.store.function? f = some (.closure c)) (args : List Value) :
    DevelopsFrom m (callClosure exec c args) := by
  by_cases hargs : args.length = c.params.length
  · by_cases hdepth : m.depth < maxCallDepth
    · have hbody := developing_runAll hexec .undefined c.body (m.enterCall c args)
      refine ⟨?_, ?_⟩
      · rw [after_callClosure hargs hdepth]
        rfl
      · rw [after_callClosure hargs hdepth]
        exact .call hf _ hbody.store
    · refine developsFrom_of_after ?_
      unfold after
      rw [callClosure_of_limit hargs hdepth]
  · refine developsFrom_of_after ?_
    unfold callClosure
    rw [if_pos hargs]
    rfl

theorem developing_call (hexec : ∀ s, Developing (exec s)) (callee : Value)
    (receiver : Option Value) (args : List Value) :
    Developing (Eval.call exec callee receiver args) := by
  cases callee with
  | function f =>
    intro m
    -- the function object is looked up in the store of this machine
    cases hf : m.store.function? f with
    | none =>
      refine developsFrom_of_after ?_
      unfold after
      rw [call_of_none hf]
    | some g =>
      cases g with
      | native n =>
        refine (developing_native_call n receiver args m).of_after_eq ?_
        unfold after
        rw [call_of_native hf]
      | closure c =>
        refine (developsFrom_callClosure hexec hf args).of_after_eq ?_
        unfold after
        rw [call_of_closure hf]
  | undefined | boolean | number | text | array | map => exact developing_raise _

/-! ## Trees -/

theorem developing_evalAll (heval : ∀ e, Developing (eval e)) (es : List (Expr Unit)) :
    Developing (evalAll eval es) := by
  induction es with
  | nil => exact developing_pure _
  | cons e es ih =>
    refine developing_bind (heval e) fun v => ?_
    exact developing_bind ih fun vs => developing_pure _

theorem developing_evalEntries (heval : ∀ e, Developing (eval e))
    (es : List (String × Expr Unit)) : Developing (evalEntries eval es) := by
  induction es with
  | nil => exact developing_pure _
  | cons e es ih =>
    refine developing_bind (heval e.2) fun v => ?_
    exact developing_bind ih fun vs => developing_pure _

theorem developing_evalOption (heval : ∀ e, Developing (eval e)) (e : Option (Expr Unit)) :
    Developing (evalOption eval e) := by
  cases e with
  | none => exact developing_pure _
  | some e => exact heval e

theorem developing_evalCallee (heval : ∀ e, Developing (eval e)) (callee : Expr Unit) :
    Developing (evalCallee eval callee) := by
  unfold evalCallee
  split
  · refine developing_bind (heval _) fun target => ?_
    exact developing_bind (developing_readMember _ _) fun f => developing_pure _
  · exact developing_bind (heval _) fun f => developing_pure _

theorem developing_assignTo (heval : ∀ e, Developing (eval e)) (value : Value)
    (target : Target Unit) : Developing (assignTo eval value target) := by
  cases target with
  | var a name => exact developing_assign name value
  | field a container name =>
    exact developing_bind (heval container) fun _ => developing_writeField _ _ _
  | index a container key =>
    refine developing_bind (heval container) fun _ => ?_
    exact developing_bind (heval key) fun _ => developing_writeIndex _ _ _

theorem developing_forLoop {body : Value → Eval Completion} (h : ∀ v, Developing (body v))
    (items : List Value) : Developing (forLoop body items) := by
  induction items with
  | nil => exact developing_pure _
  | cons item items ih =>
    refine developing_bind (h item) fun flow => ?_
    cases flow with
    | next _ | cont => exact ih
    | ret _ | brk => exact developing_pure _

theorem developing_whileLoop {condition : Eval Value} {body : Eval Completion}
    (hcondition : Developing condition) (hbody : Developing body) (rounds : Nat) :
    Developing (whileLoop condition body rounds) := by
  induction rounds with
  | zero => exact developing_stop _
  | succ rounds ih =>
    refine developing_bind hcondition fun v => ?_
    split
    · refine developing_bind hbody fun flow => ?_
      cases flow with
      | next _ | cont => exact ih
      | ret _ | brk => exact developing_pure _
    · exact developing_pure _

/-- **One level of an expression.** -/
theorem developing_evalWith (heval : ∀ e, Developing (eval e)) (hexec : ∀ s, Developing (exec s))
    (e : Expr Unit) : Developing (e.evalWith eval exec) := by
  cases e with
  | number | text | boolean | undefined => exact developing_pure _
  | var a name => exact developing_lookup name
  | binary a op left right =>
    refine developing_bind (heval left) fun l => ?_
    split
    · exact developing_pure _
    · refine developing_bind (heval right) fun r => ?_
      exact developing_bind developing_getStore fun σ => developing_ofExcept _
  | unary a op operand => exact developing_bind (heval operand) fun v => developing_ofExcept _
  | assign a target value =>
    refine developing_bind (heval value) fun v => ?_
    exact developing_bind (developing_assignTo heval v target) fun _ => developing_pure _
  | call a callee args =>
    refine developing_bind (developing_evalCallee heval callee) fun p => ?_
    exact developing_bind (developing_evalAll heval args) fun vs => developing_call hexec _ _ vs
  | array a items =>
    exact developing_bind (developing_evalAll heval items) fun vs => developing_newArray _
  | map a entries =>
    exact developing_bind (developing_evalEntries heval entries) fun vs => developing_newMap _
  | index a container key =>
    refine developing_bind (heval container) fun target => ?_
    exact developing_bind (heval key) fun k => developing_readIndex _ _
  | field a container name =>
    exact developing_bind (heval container) fun target => developing_readMember _ _
  | lambda a name params body => exact developing_newClosure _ _ _

/-- **One level of a statement.** -/
theorem developing_execWith (heval : ∀ e, Developing (eval e)) (hexec : ∀ s, Developing (exec s))
    (rounds : Nat) (s : Stmt Unit) : Developing (s.execWith rounds eval exec) := by
  have hinner : ∀ bindings body, Developing (runInner exec bindings body) :=
    developing_runInner hexec
  cases s with
  | letVar a name init =>
    refine developing_bind (developing_evalOption heval init) fun v => ?_
    exact developing_bind (developing_define name v) fun _ => developing_pure _
  | function a name params body =>
    refine developing_bind (developing_newClosure _ _ _) fun f => ?_
    exact developing_bind (developing_define name f) fun _ => developing_pure _
  | expr a e => exact developing_bind (heval e) fun v => developing_pure _
  | block a body => exact hinner .empty body
  | ifElse a condition yes no =>
    refine developing_bind (heval condition) fun v => ?_
    split
    · exact developing_bind (hinner .empty yes) fun flow => developing_pure _
    · cases no with
      | some no => exact developing_bind (hinner .empty no) fun flow => developing_pure _
      | none => exact developing_pure _
  | whileLoop a condition body =>
    exact developing_whileLoop (heval condition) (hinner .empty body) rounds
  | forEach a name items body =>
    refine developing_bind (heval items) fun v => ?_
    refine developing_bind developing_getStore fun σ => ?_
    refine developing_bind (developing_ofExcept _) fun vs => ?_
    exact developing_forLoop (fun v => hinner _ body) vs
  | tryCatch a body name handler =>
    have hboth : Developing (catching (runInner exec .empty body) (runBinding exec name handler)) :=
      developing_catching (hinner .empty body) fun payload => hinner _ handler
    exact developing_bind hboth fun flow => developing_pure _
  | throw a e => exact developing_bind (heval e) fun v => developing_stop _
  | ret a e => exact developing_bind (developing_evalOption heval e) fun v => developing_pure _
  | brk | cont => exact developing_pure _

end Trees

end Eval

/-! ## Evaluation -/

/-- **Evaluation only develops the store.**  The induction is on the fuel. -/
theorem developing_eval_exec (fuel : Nat) :
    (∀ e, Developing (evalExpr fuel e)) ∧ ∀ s, Developing (execStmt fuel s) := by
  induction fuel with
  | zero => exact ⟨fun _ => developing_stop _, fun _ => developing_stop _⟩
  | succ fuel ih =>
    obtain ⟨heval, hexec⟩ := ih
    exact ⟨developing_evalWith heval hexec, developing_execWith heval hexec fuel⟩

/-- So does every task. -/
theorem developing_run (fuel : Nat) (t : Task) : Developing (t.run fuel) := by
  obtain ⟨heval, hexec⟩ := developing_eval_exec fuel
  cases t with
  | expr e => exact heval e
  | exprs es => exact developing_evalAll heval es
  | entries es => exact developing_evalEntries heval es
  | callee e => exact developing_evalCallee heval e
  | place value target => exact developing_assignTo heval value target
  | call f receiver args => exact developing_call hexec f receiver args
  | stmt s => exact hexec s
  | stmts last code => exact developing_runAll hexec last code
  | body bindings code => exact developing_runInner hexec bindings code
  | rounds condition code left =>
    exact developing_whileLoop (heval condition) (developing_runInner hexec .empty code) left
  | items name code left =>
    exact developing_forLoop (fun v => developing_runInner hexec _ code) left

/-- And so does a statement at the top level. -/
theorem developing_evaluate (fuel : Nat) (s : Stmt Unit) : Developing (s.evaluate fuel) := by
  refine developing_bind ((developing_eval_exec fuel).2 s) fun flow => ?_
  cases flow with
  | next v => exact developing_pure v
  | ret | brk | cont => exact developing_raise _

end Script
