import Mathlib.Logic.Relation
import Script.Proofs.Eval.Keeping

/-!
# The evaluations inside an evaluation

A visit is one use of the evaluator: a task, the machine that it starts from, and the fuel that is
left.  While it lasts, a visit enters other visits: an operator enters its operands, a call enters
its callee, its arguments and then the body of the function, a loop enters its rounds.  Each rule of
`Visit.Enters` is one such step, and says from which machine the inner visit starts, given what the
visits before it came to.

The body of a `try` statement is the one place from which a stop may fail to come out, so it has a
relation of its own, `Visit.Tries`.

## Main definitions

* `Task`, `Visit`: what the evaluator is asked to do, and where.
* `Visit.Enters`: one visit is a step of another, outside the body of a `try` statement.
* `Visit.Tries`: one visit is the body of another, a `try` statement.
* `Visit.Leads`, `Visit.Reaches`: chains of such steps, without and with bodies of `try` statements.

## Main results

* `Visit.Leads.halts`: a stop comes out of every chain that has no `try` body in it.
* `Visit.Reaches.halts`: a stop that is no raised value comes out of every chain.
* `Visit.Tries.handles`: a value raised in the body of a `try` statement goes to its handler.
* `Visit.Reaches.innermost`: of the `try` bodies on a chain, one is innermost.
-/

namespace Script

open Eval Outcome

/-! ## Visits -/

/-- What the evaluator can be asked to do. -/
inductive Task where
  /-- Evaluate an expression. -/
  | expr (e : Expr Unit)
  /-- Evaluate expressions from left to right. -/
  | exprs (es : List (Expr Unit))
  /-- Evaluate map entries from left to right. -/
  | entries (es : List (String × Expr Unit))
  /-- Find what a call calls, and on what. -/
  | callee (e : Expr Unit)
  /-- Assign a value to a place. -/
  | place (value : Value) (target : Target Unit)
  /-- Call a value. -/
  | call (callee : Value) (receiver : Option Value) (args : List Value)
  /-- Run a statement. -/
  | stmt (s : Stmt Unit)
  /-- Run statements in sequence. -/
  | stmts (last : Value) (code : List (Stmt Unit))
  /-- Run a body in a new scope. -/
  | body (bindings : Dict Value) (code : List (Stmt Unit))
  /-- Run the remaining rounds of a loop with a condition. -/
  | rounds (condition : Expr Unit) (code : List (Stmt Unit)) (left : Nat)
  /-- Run a loop over the remaining items. -/
  | items (name : String) (code : List (Stmt Unit)) (left : List Value)

namespace Task

/-- What a task yields. -/
abbrev Result : Task → Type
  | expr _ | call .. => Value
  | exprs _ => List Value
  | entries _ => List (String × Value)
  | callee _ => Value × Option Value
  | place .. => Unit
  | stmt _ | stmts .. | body .. | rounds .. | items .. => Completion

/-- The part of the evaluator that performs a task. -/
def run (fuel : Nat) : (t : Task) → Eval t.Result
  | expr e => evalExpr fuel e
  | exprs es => evalAll (evalExpr fuel) es
  | entries es => evalEntries (evalExpr fuel) es
  | callee e => evalCallee (evalExpr fuel) e
  | place value target => assignTo (evalExpr fuel) value target
  | call f receiver args => Eval.call (execStmt fuel) f receiver args
  | stmt s => execStmt fuel s
  | stmts last code => runAll (execStmt fuel) last code
  | body bindings code => runInner (execStmt fuel) bindings code
  | rounds condition code left =>
    whileLoop (evalExpr fuel condition) (runInner (execStmt fuel) .empty code) left
  | items name code left => forLoop (runBinding (execStmt fuel) name code) left

/-- Every task restores the scope and the call depth. -/
theorem keeps_run (fuel d : Nat) (t : Task) : Guarantee.frame.Keeps d (t.run fuel) := by
  obtain ⟨heval, hexec⟩ := keeps_frame fuel
  cases t with
  | expr e => exact heval d e
  | exprs es => exact Guarantee.keeps_evalAll fun e _ => heval d e
  | entries es => exact Guarantee.keeps_evalEntries fun e _ => heval d e.2
  | callee e => exact Guarantee.keeps_evalCallee (heval d _)
  | place value target => exact Guarantee.keeps_assignTo (fun e _ => heval d e) value
  | call f receiver args =>
    exact Guarantee.keeps_call (fun _ c _ s _ => hexec (d + 1) s) f receiver args
  | stmt s => exact hexec d s
  | stmts last code => exact Guarantee.keeps_runAll fun s _ => hexec d s
  | body bindings code => exact Guarantee.keeps_runInner fun s _ => hexec d s
  | rounds condition code left =>
    have hcode : Guarantee.frame.Keeps d (runInner (execStmt fuel) .empty code) :=
      Guarantee.keeps_runInner fun s _ => hexec d s
    exact Guarantee.keeps_whileLoop id (heval d condition) hcode left
  | items name code left =>
    exact Guarantee.keeps_forLoop (fun _ => Guarantee.keeps_runInner fun s _ => hexec d s) left

end Task

/-- One use of the evaluator. -/
structure Visit where
  fuel : Nat
  task : Task
  machine : Machine

namespace Machine

/-- The machine `m` with the store and the output of `m'`. -/
def withEffects (m m' : Machine) : Machine := { m with store := m'.store, sink := m'.sink }

/-- The machine at the start of a body with the given bindings. -/
def enterBody (m : Machine) (bindings : Dict Value) : Machine :=
  let (scope, store) := m.store.newScope (some m.scope) bindings
  { m with store := store, scope := scope }

/-- The machine at the start of the body of a function. -/
def enterCall (m : Machine) (c : Closure) (args : List Value) : Machine :=
  let bindings := Dict.empty.insertAll (c.params.zip args)
  let (scope, store) := m.store.newScope (some c.scope) bindings
  { m with store := store, scope := scope, depth := m.depth + 1 }

/-- The machine after the body of a function, which was called in the machine `m` and has left `m'`:
it is back in the scope of the call, and one call less is in progress. -/
def leaveBody (m m' : Machine) : Machine := { m' with scope := m.scope, depth := m'.depth - 1 }

/-- A body that has come back to its own depth leaves its effects and nothing else. -/
theorem leaveBody_eq_withEffects {m m' : Machine} (h : m'.depth = m.depth + 1) :
    m.leaveBody m' = m.withEffects m' := by
  unfold leaveBody withEffects
  rw [h, Nat.add_sub_cancel]

end Machine

/-- Whether a loop goes on after a round that ended so. -/
def Completion.goesOn : Completion → Bool
  | next _ | cont => true
  | ret _ | brk => false

namespace Visit

/-- A visit stops, and leaves the machine `m'`. -/
def Halts (v : Visit) (stop : Stop) (m' : Machine) : Prop :=
  v.task.run v.fuel v.machine = .error stop m'

/-- However a visit stops, the scope and the call depth are those that it started with. -/
theorem Halts.eq_withEffects {v : Visit} {stop : Stop} {m' : Machine} (h : v.Halts stop m') :
    m' = v.machine.withEffects m' := by
  obtain ⟨hkept, -⟩ :=
    v.task.keeps_run v.fuel v.machine.depth v.machine rfl (Guarantee.holds_frame _)
  rw [after_of_error h] at hkept
  calc m' = ⟨m'.store, m'.sink, m'.scope, m'.depth⟩ := rfl
    _ = v.machine.withEffects m' := by rw [hkept.scope, hkept.depth]; rfl

/-! ## Steps -/

/-- **Steps of a visit.**  The visit on the left enters the one on the right. -/
inductive Enters : Visit → Visit → Prop
  -- the parts of an expression
  | left {n m a op e e'} : Enters ⟨n + 1, .expr (.binary a op e e'), m⟩ ⟨n, .expr e, m⟩
  | right {n m m' a op e e' v} (hleft : evalExpr n e m = .ok v m')
      (hop : op.shortcut? v = none) :
      Enters ⟨n + 1, .expr (.binary a op e e'), m⟩ ⟨n, .expr e', m'⟩
  | operand {n m a op e} : Enters ⟨n + 1, .expr (.unary a op e), m⟩ ⟨n, .expr e, m⟩
  | assigned {n m a target e} : Enters ⟨n + 1, .expr (.assign a target e), m⟩ ⟨n, .expr e, m⟩
  | place {n m m' a target e v} (hvalue : evalExpr n e m = .ok v m') :
      Enters ⟨n + 1, .expr (.assign a target e), m⟩ ⟨n, .place v target, m'⟩
  | callee {n m a e args} : Enters ⟨n + 1, .expr (.call a e args), m⟩ ⟨n, .callee e, m⟩
  | args {n m m' a e args p} (hcallee : evalCallee (evalExpr n) e m = .ok p m') :
      Enters ⟨n + 1, .expr (.call a e args), m⟩ ⟨n, .exprs args, m'⟩
  | call {n m m' m'' a e args p vs} (hcallee : evalCallee (evalExpr n) e m = .ok p m')
      (hargs : evalAll (evalExpr n) args m' = .ok vs m'') :
      Enters ⟨n + 1, .expr (.call a e args), m⟩ ⟨n, .call p.1 p.2 vs, m''⟩
  | array {n m a es} : Enters ⟨n + 1, .expr (.array a es), m⟩ ⟨n, .exprs es, m⟩
  | map {n m a es} : Enters ⟨n + 1, .expr (.map a es), m⟩ ⟨n, .entries es, m⟩
  | indexed {n m a e key} : Enters ⟨n + 1, .expr (.index a e key), m⟩ ⟨n, .expr e, m⟩
  | index {n m m' a e key v} (hcontainer : evalExpr n e m = .ok v m') :
      Enters ⟨n + 1, .expr (.index a e key), m⟩ ⟨n, .expr key, m'⟩
  | owner {n m a e name} : Enters ⟨n + 1, .expr (.field a e name), m⟩ ⟨n, .expr e, m⟩
  -- the parts of lists, callees and places
  | exprsHead {n m e es} : Enters ⟨n, .exprs (e :: es), m⟩ ⟨n, .expr e, m⟩
  | exprsTail {n m m' e es v} (hhead : evalExpr n e m = .ok v m') :
      Enters ⟨n, .exprs (e :: es), m⟩ ⟨n, .exprs es, m'⟩
  | entriesHead {n m key e es} : Enters ⟨n, .entries ((key, e) :: es), m⟩ ⟨n, .expr e, m⟩
  | entriesTail {n m m' key e es v} (hhead : evalExpr n e m = .ok v m') :
      Enters ⟨n, .entries ((key, e) :: es), m⟩ ⟨n, .entries es, m'⟩
  | calleeOwner {n m a e name} : Enters ⟨n, .callee (.field a e name), m⟩ ⟨n, .expr e, m⟩
  | calleeValue {n m e} (hself : ∀ a e' name, e ≠ .field a e' name) :
      Enters ⟨n, .callee e, m⟩ ⟨n, .expr e, m⟩
  | placeOwner {n m v a e name} : Enters ⟨n, .place v (.field a e name), m⟩ ⟨n, .expr e, m⟩
  | placeIndexed {n m v a e key} : Enters ⟨n, .place v (.index a e key), m⟩ ⟨n, .expr e, m⟩
  | placeIndex {n m m' v a e key w} (hcontainer : evalExpr n e m = .ok w m') :
      Enters ⟨n, .place v (.index a e key), m⟩ ⟨n, .expr key, m'⟩
  -- the body of a function
  | code {n m f c receiver args} (hf : m.store.function? f = some (.closure c))
      (hargs : args.length = c.params.length) (hdepth : m.depth < maxCallDepth) :
      Enters ⟨n, .call (.function f) receiver args, m⟩
        ⟨n, .stmts .undefined c.body, m.enterCall c args⟩
  -- the parts of bodies
  | stmts {n m bindings body} :
      Enters ⟨n, .body bindings body, m⟩ ⟨n, .stmts .undefined body, m.enterBody bindings⟩
  | stmtsHead {n m last s body} : Enters ⟨n, .stmts last (s :: body), m⟩ ⟨n, .stmt s, m⟩
  | stmtsTail {n m m' last s body v} (hhead : execStmt n s m = .ok (.next v) m') :
      Enters ⟨n, .stmts last (s :: body), m⟩ ⟨n, .stmts v body, m'⟩
  -- the parts of a statement
  | init {n m a name e} : Enters ⟨n + 1, .stmt (.letVar a name (some e)), m⟩ ⟨n, .expr e, m⟩
  | expr {n m a e} : Enters ⟨n + 1, .stmt (.expr a e), m⟩ ⟨n, .expr e, m⟩
  | block {n m a body} : Enters ⟨n + 1, .stmt (.block a body), m⟩ ⟨n, .body .empty body, m⟩
  | condition {n m a e yes no} : Enters ⟨n + 1, .stmt (.ifElse a e yes no), m⟩ ⟨n, .expr e, m⟩
  | yes {n m m' a e yes no v} (hcondition : evalExpr n e m = .ok v m') (hv : v.truthy = true) :
      Enters ⟨n + 1, .stmt (.ifElse a e yes no), m⟩ ⟨n, .body .empty yes, m'⟩
  | no {n m m' a e yes no v} (hcondition : evalExpr n e m = .ok v m') (hv : v.truthy = false) :
      Enters ⟨n + 1, .stmt (.ifElse a e yes (some no)), m⟩ ⟨n, .body .empty no, m'⟩
  | loop {n m a e body} : Enters ⟨n + 1, .stmt (.whileLoop a e body), m⟩ ⟨n, .rounds e body n, m⟩
  | iterated {n m a name e body} :
      Enters ⟨n + 1, .stmt (.forEach a name e body), m⟩ ⟨n, .expr e, m⟩
  | items {n m m' a name e body v vs} (he : evalExpr n e m = .ok v m')
      (hvs : m'.store.items v = .ok vs) :
      Enters ⟨n + 1, .stmt (.forEach a name e body), m⟩ ⟨n, .items name body vs, m'⟩
  | handler {n m m' a body name handler v}
      (hbody : runInner (execStmt n) .empty body m = .error (.raise v) m') :
      Enters ⟨n + 1, .stmt (.tryCatch a body name handler), m⟩
        ⟨n, .body (Dict.empty.insert name v) handler, m'⟩
  | thrown {n m a e} : Enters ⟨n + 1, .stmt (.throw a e), m⟩ ⟨n, .expr e, m⟩
  | returned {n m a e} : Enters ⟨n + 1, .stmt (.ret a (some e)), m⟩ ⟨n, .expr e, m⟩
  -- the rounds of loops
  | roundTest {n m e body k} : Enters ⟨n, .rounds e body (k + 1), m⟩ ⟨n, .expr e, m⟩
  | roundBody {n m m' e body k v} (htest : evalExpr n e m = .ok v m') (hv : v.truthy = true) :
      Enters ⟨n, .rounds e body (k + 1), m⟩ ⟨n, .body .empty body, m'⟩
  | roundNext {n m m' m'' e body k v flow} (htest : evalExpr n e m = .ok v m')
      (hv : v.truthy = true) (hbody : runInner (execStmt n) .empty body m' = .ok flow m'')
      (hflow : flow.goesOn = true) :
      Enters ⟨n, .rounds e body (k + 1), m⟩ ⟨n, .rounds e body k, m''⟩
  | itemBody {n m name body v vs} :
      Enters ⟨n, .items name body (v :: vs), m⟩ ⟨n, .body (Dict.empty.insert name v) body, m⟩
  | itemNext {n m m' name body v vs flow}
      (hbody : runBinding (execStmt n) name body v m = .ok flow m')
      (hflow : flow.goesOn = true) :
      Enters ⟨n, .items name body (v :: vs), m⟩ ⟨n, .items name body vs, m'⟩

/-- The visit on the left is a `try` statement, and the one on the right is its body. -/
inductive Tries : Visit → Visit → Prop
  | body {n m a body name handler} :
      Tries ⟨n + 1, .stmt (.tryCatch a body name handler), m⟩ ⟨n, .body .empty body, m⟩

/-- A chain of steps that enters no body of a `try` statement. -/
abbrev Leads : Visit → Visit → Prop := Relation.ReflTransGen Enters

/-- A chain of steps of any kind: the second visit takes place while the first one lasts. -/
abbrev Reaches : Visit → Visit → Prop := Relation.ReflTransGen fun v w => Enters v w ∨ Tries v w

/-! ## Stops come out -/

variable {v w : Visit} {stop : Stop} {m' : Machine}

/-- A stop inside a scope comes out with the scope changed back. -/
theorem within_of_error {α : Type} {x : Eval α} {scope : ScopeId} {m : Machine}
    (h : x { m with scope := scope } = .error stop m') :
    within scope x m = .error stop { m' with scope := m.scope } := by
  simp only [within, h]

/-- A stop inside a function body comes out with one call less. -/
theorem calling_of_error {α : Type} {x : Eval α} {m : Machine}
    (h : x { m with depth := m.depth + 1 } = .error stop m') :
    calling x m = .error stop { m' with depth := m'.depth - 1 } := by
  simp only [calling, h]

/-- A function body runs in a machine of its own, and a stop there is a stop of the call. -/
theorem callClosure_of_error {exec : Stmt Unit → Eval Completion} {m : Machine} {c : Closure}
    {args : List Value} (hargs : args.length = c.params.length) (hdepth : m.depth < maxCallDepth)
    (h : runAll exec .undefined c.body (m.enterCall c args) = .error stop m') :
    callClosure exec c args m = .error stop (m.leaveBody m') := by
  unfold callClosure
  -- neither of the two checks before the body raises anything
  rw [if_neg (fun hne => hne hargs)]
  show (if maxCallDepth ≤ m.depth then _ else _ : Eval Value) m = _
  rw [if_neg (Nat.not_le.mpr hdepth)]
  refine (bind_of_ok (t := { m with store := (m.enterCall c args).store }) rfl).trans ?_
  exact bind_of_error (calling_of_error (within_of_error h))

/-- A body runs in a machine of its own, and a stop there is a stop of the construct around it. -/
theorem runInner_of_error {exec : Stmt Unit → Eval Completion} {m : Machine}
    {bindings : Dict Value} {body : List (Stmt Unit)}
    (h : runAll exec .undefined body (m.enterBody bindings) = .error stop m') :
    runInner exec bindings body m = .error stop { m' with scope := m.scope } := by
  refine (bind_of_ok (t := { m with store := (m.enterBody bindings).store }) rfl).trans ?_
  exact within_of_error h

/-- What is called is evaluated as it is, unless it is a member. -/
theorem evalCallee_of_ne_field {eval : Expr Unit → Eval Value} {e : Expr Unit}
    (hself : ∀ a e' name, e ≠ .field a e' name) :
    evalCallee eval e = eval e >>= fun f => pure (f, none) := by
  unfold evalCallee
  split
  · exact absurd rfl (hself _ _ _)
  · rfl

/-- **A step hands stops on.**  If a visit stops, so does the visit that entered it, with the same
store and output. -/
theorem Enters.exists_halts (h : Enters v w) (hw : w.Halts stop m') :
    ∃ m'', v.Halts stop m'' ∧ m''.store = m'.store ∧ m''.sink = m'.sink := by
  cases h with
  -- what is evaluated first
  | left | operand | assigned | callee | array | map | indexed | owner | exprsHead | entriesHead
  | calleeOwner | placeOwner | placeIndexed | stmtsHead | init | expr | condition | iterated
  | thrown | returned | roundTest | itemBody => exact ⟨m', bind_of_error hw, rfl, rfl⟩
  | calleeValue hself =>
    refine ⟨m', ?_, rfl, rfl⟩
    show evalCallee _ _ _ = _
    rw [evalCallee_of_ne_field hself]
    exact bind_of_error hw
  -- what is evaluated after something else
  | right hleft hop =>
    refine ⟨m', (bind_of_ok hleft).trans ?_, rfl, rfl⟩
    rw [hop]
    exact bind_of_error hw
  | place h₁ | args h₁ | index h₁ | exprsTail h₁ | entriesTail h₁ | placeIndex h₁ =>
    exact ⟨m', (bind_of_ok h₁).trans (bind_of_error hw), rfl, rfl⟩
  | call hcallee hargs =>
    exact ⟨m', (bind_of_ok hcallee).trans ((bind_of_ok hargs).trans hw), rfl, rfl⟩
  | stmtsTail hhead => exact ⟨m', (bind_of_ok hhead).trans hw, rfl, rfl⟩
  | yes hcondition hv =>
    refine ⟨m', (bind_of_ok hcondition).trans ?_, rfl, rfl⟩
    rw [hv]
    exact bind_of_error hw
  | no hcondition hv =>
    refine ⟨m', (bind_of_ok hcondition).trans ?_, rfl, rfl⟩
    rw [hv]
    exact bind_of_error hw
  | @items n m m₁ a name e body u us he hus =>
    refine ⟨m', (bind_of_ok he).trans ?_, rfl, rfl⟩
    show (ofExcept (m₁.store.items u) >>= forLoop (runBinding (execStmt n) name body)) m₁ = _
    rw [hus]
    exact hw
  | handler hbody =>
    refine ⟨m', bind_of_error ?_, rfl, rfl⟩
    unfold catching
    rw [hbody]
    exact hw
  | roundBody htest hv =>
    refine ⟨m', (bind_of_ok htest).trans ?_, rfl, rfl⟩
    rw [if_pos hv]
    exact bind_of_error hw
  | @roundNext n m m₁ m₂ e body k u flow htest hv hbody hflow =>
    refine ⟨m', (bind_of_ok htest).trans ?_, rfl, rfl⟩
    rw [if_pos hv]
    refine (bind_of_ok hbody).trans ?_
    cases flow with
    | next _ | cont => exact hw
    | ret _ | brk => cases hflow
  | @itemNext n m m₁ name body u us flow hbody hflow =>
    refine ⟨m', (bind_of_ok hbody).trans ?_, rfl, rfl⟩
    cases flow with
    | next _ | cont => exact hw
    | ret _ | brk => cases hflow
  -- what has a machine of its own
  | block | loop => exact ⟨m', hw, rfl, rfl⟩
  | stmts => exact ⟨_, runInner_of_error hw, rfl, rfl⟩
  | @code n m f c receiver args hf hargs hdepth =>
    have hstore : getStore m = .ok m.store m := rfl
    refine ⟨m.leaveBody m', (bind_of_ok hstore).trans ?_, rfl, rfl⟩
    rw [hf]
    exact callClosure_of_error hargs hdepth hw

theorem Enters.halts (h : Enters v w) (hw : w.Halts stop m') :
    v.Halts stop (v.machine.withEffects m') := by
  -- the step settles the store and the output, the frame the rest of the machine
  obtain ⟨m'', hv, hstore, hsink⟩ := h.exists_halts hw
  have heq : m'' = v.machine.withEffects m'' := hv.eq_withEffects
  rw [heq] at hv
  unfold Machine.withEffects at hv ⊢
  rw [hstore, hsink] at hv
  exact hv

/-- A stop that is no raised value comes out of the body of a `try` statement. -/
theorem Tries.halts (h : Tries v w) (hstop : ∀ payload, stop ≠ .raise payload)
    (hw : w.Halts stop m') : v.Halts stop (v.machine.withEffects m') := by
  cases h with
  | @body n m a body name handler =>
    have hbody : runInner (execStmt n) .empty body m = .error stop m' := hw
    have hcatch : catching (runInner (execStmt n) .empty body)
        (runBinding (execStmt n) name handler) m = .error stop m' := by
      unfold catching
      rw [hbody]
      cases stop with
      | raise payload => exact absurd rfl (hstop payload)
      | exit _ | fault _ | outOfFuel => rfl
    have heq : m' = m.withEffects m' := hw.eq_withEffects
    rw [heq] at hcatch
    exact bind_of_error hcatch

/-- **A raised value goes to the handler.**  From the moment at which it is raised, the `try`
statement does what its handler does, with the value under the name of the handler. -/
theorem Tries.handles {n : Nat} {body : List (Stmt Unit)} {m : Machine} {payload : Value}
    (a : Unit) (name : String) (handler : List (Stmt Unit))
    (hw : Halts ⟨n, .body .empty body, m⟩ (.raise payload) m') :
    execStmt (n + 1) (.tryCatch a body name handler) m =
      (runBinding (execStmt n) name handler payload >>= fun flow => pure flow.settle)
        (m.withEffects m') := by
  have hbody : runInner (execStmt n) .empty body m = .error (.raise payload) m' := hw
  have heq : m' = m.withEffects m' := hw.eq_withEffects
  rw [heq] at hbody
  show (catching _ _ >>= _) m = _
  unfold catching
  simp only [bind, EStateM.bind, hbody]

/-! ## Chains -/

/-- **Stops come out.**  A stop ends every visit around it, if none of them is in the body of a
`try` statement; the store and the output are those of the moment. -/
theorem Leads.halts (h : Leads v w) (hw : w.Halts stop m') :
    v.Halts stop (v.machine.withEffects m') := by
  induction h using Relation.ReflTransGen.head_induction_on with
  | refl =>
    rw [← hw.eq_withEffects]
    exact hw
  | head hstep _ ih =>
    have hout := hstep.halts ih
    exact hout

/-- **Nothing handles a stop that is no raised value.**  It ends every visit around it. -/
theorem Reaches.halts (h : Reaches v w) (hstop : ∀ payload, stop ≠ .raise payload)
    (hw : w.Halts stop m') : v.Halts stop (v.machine.withEffects m') := by
  induction h using Relation.ReflTransGen.head_induction_on with
  | refl =>
    rw [← hw.eq_withEffects]
    exact hw
  | head hstep _ ih =>
    rcases hstep with henters | htries
    · have hout := henters.halts ih
      exact hout
    · have hout := htries.halts hstop ih
      exact hout

/-- A visit inside another is in no body of a `try` statement, or in an innermost one. -/
theorem Reaches.innermost (h : Reaches v w) :
    Leads v w ∨ ∃ t b, Reaches v t ∧ Tries t b ∧ Leads b w := by
  induction h with
  | refl => exact .inl .refl
  | @tail u w hvu hstep ih =>
    rcases hstep with henters | htries
    · rcases ih with hleads | ⟨t, b, hvt, htb, hbu⟩
      · exact .inl (hleads.tail henters)
      · exact .inr ⟨t, b, hvt, htb, hbu.tail henters⟩
    · exact .inr ⟨u, w, hvu, htries, .refl⟩

end Visit

end Script
