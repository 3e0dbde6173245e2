import Script.Proofs.Eval.Heredity
import Script.Proofs.Eval.Raising
import Script.Proofs.Tree.Jumps

/-!
# What can leave a statement

A statement that ends with a jump contains this jump: a `break` or a `continue` that is in none of
its loops, or a `return`, and in any case none that is in a function inside of it.  This holds in
every machine, whatever functions the statement calls.

So if every function in a program is left by returns only, then so is every function object that it
ever calls, and no call complains about a loop control.  If a complaint about jumps is raised all
the same, a `throw` statement raises it.

## Main definitions

* `Completion.jump?`: the jump that a statement ended with.
* `Eval.LeavesBy`: the jumps that an evaluation may end with.
* `Heredity.returning`: the trees whose functions are left by returns only.

## Main results

* `leavesBy_exec`: a statement ends with one of its own jumps.
* `Visit.exists_throw_of_misplaced`: a complaint about jumps was thrown.
-/

namespace Script

open Eval Outcome

/-- The jump that a statement ended with, if it did not go on. -/
def Completion.jump? : Completion → Option Jump
  | next _ => none
  | ret _ => some .ret
  | brk => some .brk
  | cont => some .cont

theorem Completion.jump?_settle (flow : Completion) : flow.settle.jump? = flow.jump? := by
  cases flow <;> rfl

/-! ## Statements -/

namespace Eval

variable {α : Type} {jumps : List Jump} {x : Eval Completion}

/-- If the evaluation ends with a jump, it is one of the given ones. -/
def LeavesBy (jumps : List Jump) (x : Eval Completion) : Prop :=
  ∀ m flow m', x m = .ok flow m' → ∀ jump, flow.jump? = some jump → jump ∈ jumps

theorem LeavesBy.mono {jumps' : List Jump} (h : LeavesBy jumps x) (hsub : jumps ⊆ jumps') :
    LeavesBy jumps' x :=
  fun m flow m' hrun jump hjump => hsub (h m flow m' hrun jump hjump)

theorem leavesBy_stop (s : Stop) : LeavesBy jumps (stop s) := by
  intro m flow m' h
  cases h

theorem leavesBy_pure {flow : Completion} (h : ∀ jump, flow.jump? = some jump → jump ∈ jumps) :
    LeavesBy jumps (pure flow) := by
  intro m flow' m' hrun
  cases hrun
  exact h

theorem leavesBy_next (v : Value) : LeavesBy jumps (pure (.next v)) :=
  leavesBy_pure fun jump hjump => by cases hjump

/-- What comes before the last step does not matter. -/
theorem leavesBy_bind {y : Eval α} {f : α → Eval Completion} (hf : ∀ a, LeavesBy jumps (f a)) :
    LeavesBy jumps (y >>= f) := by
  intro m flow m' h
  obtain ⟨a, k, -, hrest⟩ := bind_eq_ok_iff.mp h
  exact hf a k flow m' hrest

theorem leavesBy_settle (h : LeavesBy jumps x) :
    LeavesBy jumps (x >>= fun flow => pure flow.settle) := by
  intro m flow m' hrun
  obtain ⟨flow', k, hx, hpure⟩ := bind_eq_ok_iff.mp hrun
  obtain ⟨rfl, -⟩ := pure_eq_ok_iff.mp hpure
  rw [Completion.jump?_settle]
  exact h m flow' k hx

theorem leavesBy_within (scope : ScopeId) (h : LeavesBy jumps x) :
    LeavesBy jumps (within scope x) := by
  intro m flow m' hrun
  unfold within at hrun
  split at hrun
  · next flow' k hx =>
    cases hrun
    exact h _ _ _ hx
  · cases hrun

theorem leavesBy_catching {handler : Value → Eval Completion} (h : LeavesBy jumps x)
    (hhandler : ∀ payload, LeavesBy jumps (handler payload)) :
    LeavesBy jumps (catching x handler) := by
  intro m flow m' hrun
  unfold catching at hrun
  split at hrun
  · exact hhandler _ _ _ _ hrun
  · exact h _ _ _ hrun

variable {exec : Stmt Unit → Eval Completion} {body : List (Stmt Unit)}

theorem leavesBy_runAll {last : Value} (h : ∀ s ∈ body, LeavesBy s.jumps (exec s)) :
    LeavesBy (Stmt.jumpsList body) (runAll exec last body) := by
  induction body generalizing last with
  | nil => exact leavesBy_next last
  | cons s body ih =>
    intro m flow m' hrun
    obtain ⟨flow', k, hhead, hrest⟩ := bind_eq_ok_iff.mp hrun
    have hfirst := h s (.head _) m flow' k hhead
    cases flow' with
    | next v =>
      have htail := ih (fun s' hs' => h s' (.tail s hs')) k flow m' hrest
      exact fun jump hjump => by simp [htail jump hjump]
    | ret | brk | cont =>
      cases hrest
      exact fun jump hjump => by simp [hfirst jump hjump]

theorem leavesBy_runInner {bindings : Dict Value} (h : ∀ s ∈ body, LeavesBy s.jumps (exec s)) :
    LeavesBy (Stmt.jumpsList body) (runInner exec bindings body) :=
  leavesBy_bind fun scope => leavesBy_within scope (leavesBy_runAll h)

/-- A return in the body of a loop leaves the loop. -/
theorem leavesBy_ret {v : Value}
    (h : ∀ jump, (Completion.ret v).jump? = some jump → jump ∈ jumps) :
    LeavesBy (jumps.filter Jump.leavesLoops) (pure (.ret v)) := by
  refine leavesBy_pure fun jump hjump => ?_
  cases hjump
  exact List.mem_filter.mpr ⟨h .ret rfl, rfl⟩

theorem leavesBy_whileLoop {condition : Eval Value} (h : LeavesBy jumps x) (rounds : Nat) :
    LeavesBy (jumps.filter Jump.leavesLoops) (whileLoop condition x rounds) := by
  induction rounds with
  | zero => exact leavesBy_stop _
  | succ rounds ih =>
    refine leavesBy_bind fun v => ?_
    split
    · intro m flow m' hrun
      obtain ⟨flow', k, hbody, hrest⟩ := bind_eq_ok_iff.mp hrun
      cases flow' with
      | next | cont => exact ih k flow m' hrest
      | brk => exact leavesBy_next _ k flow m' hrest
      | ret => exact leavesBy_ret (h m _ k hbody) k flow m' hrest
    · exact leavesBy_next _

theorem leavesBy_forLoop {round : Value → Eval Completion} (h : ∀ v, LeavesBy jumps (round v))
    (items : List Value) : LeavesBy (jumps.filter Jump.leavesLoops) (forLoop round items) := by
  induction items with
  | nil => exact leavesBy_next _
  | cons item items ih =>
    intro m flow m' hrun
    obtain ⟨flow', k, hbody, hrest⟩ := bind_eq_ok_iff.mp hrun
    cases flow' with
    | next | cont => exact ih k flow m' hrest
    | brk => exact leavesBy_next _ k flow m' hrest
    | ret => exact leavesBy_ret (h item m _ k hbody) k flow m' hrest

end Eval

/-- **A statement ends with one of its own jumps**, in every machine.  The induction is on the
fuel. -/
theorem leavesBy_exec (fuel : Nat) (s : Stmt Unit) : LeavesBy s.jumps (execStmt fuel s) := by
  induction fuel generalizing s with
  | zero => exact leavesBy_stop _
  | succ fuel ih =>
    have hbody : ∀ body bindings,
        LeavesBy (Stmt.jumpsList body) (runInner (execStmt fuel) bindings body) :=
      fun body bindings => leavesBy_runInner fun s _ => ih s
    cases s with
    | letVar | function => exact leavesBy_bind fun _ => leavesBy_bind fun _ => leavesBy_next _
    | expr => exact leavesBy_bind fun _ => leavesBy_next _
    | block a body =>
      rw [Stmt.jumps]
      exact hbody body .empty
    | ifElse a condition yes no =>
      refine leavesBy_bind fun v => ?_
      split
      · refine leavesBy_settle ((hbody yes .empty).mono ?_)
        cases no <;> simp
      · cases no with
        | some no =>
          refine leavesBy_settle ((hbody no .empty).mono ?_)
          simp
        | none => exact leavesBy_next _
    | whileLoop a condition body =>
      rw [Stmt.jumps]
      exact leavesBy_whileLoop (hbody body .empty) fuel
    | forEach a name items body =>
      rw [Stmt.jumps]
      refine leavesBy_bind fun v => leavesBy_bind fun σ => leavesBy_bind fun vs => ?_
      exact leavesBy_forLoop (fun v => hbody body _) vs
    | tryCatch a body name handler =>
      rw [Stmt.jumps]
      refine leavesBy_settle (leavesBy_catching ((hbody body .empty).mono ?_) fun payload =>
        (hbody handler _).mono ?_)
      · exact List.subset_append_left _ _
      · exact List.subset_append_right _ _
    | throw => exact leavesBy_bind fun _ => leavesBy_stop _
    | ret => exact leavesBy_bind fun v => leavesBy_pure fun jump hjump => by cases hjump; simp
    | brk | cont => exact leavesBy_pure fun jump hjump => by cases hjump; simp

/-! ## The functions in a tree -/

theorem Expr.mem_functionBodiesList {body : List (Stmt Unit)} {es : List (Expr Unit)} :
    body ∈ Expr.functionBodiesList es ↔ ∃ e ∈ es, body ∈ e.functionBodies := by
  induction es with
  | nil => simp
  | cons e es ih => simp [ih]

theorem Expr.mem_functionBodiesEntries {body : List (Stmt Unit)}
    {es : List (String × Expr Unit)} :
    body ∈ Expr.functionBodiesEntries es ↔ ∃ e ∈ es, body ∈ e.2.functionBodies := by
  induction es with
  | nil => simp
  | cons e es ih => simp [ih]

theorem Stmt.mem_functionBodiesList {body code : List (Stmt Unit)} :
    body ∈ Stmt.functionBodiesList code ↔ ∃ s ∈ code, body ∈ s.functionBodies := by
  induction code with
  | nil => simp
  | cons s code ih => simp [ih]

theorem Expr.functionBodies_calleePart (e : Expr Unit) :
    e.calleePart.functionBodies = e.functionBodies := by
  unfold Expr.calleePart
  split
  · simp
  · rfl

section Parts

variable {body : List (Stmt Unit)}

theorem Target.mem_functionBodies_of_mem_parts {t : Target Unit} {e : Expr Unit}
    (he : e ∈ t.parts) (hbody : body ∈ e.functionBodies) : body ∈ t.functionBodies := by
  cases t <;> grind [Target.parts, Target.functionBodies]

theorem Expr.mem_functionBodies_of_mem_parts {e e' : Expr Unit} (he' : e' ∈ e.parts)
    (hbody : body ∈ e'.functionBodies) : body ∈ e.functionBodies := by
  cases e with
  | assign a target value =>
    rcases List.mem_cons.mp he' with rfl | htarget
    · simp [hbody]
    · simp [Target.mem_functionBodies_of_mem_parts htarget hbody]
  | call a callee args =>
    rw [Expr.functionBodies, List.mem_append]
    rcases List.mem_cons.mp he' with rfl | harg
    · rw [Expr.functionBodies_calleePart] at hbody
      exact .inl hbody
    · exact .inr (Expr.mem_functionBodiesList.mpr ⟨e', harg, hbody⟩)
  | array a items =>
    rw [Expr.functionBodies]
    exact Expr.mem_functionBodiesList.mpr ⟨e', he', hbody⟩
  | map a entries =>
    obtain ⟨entry, hentry, rfl⟩ := List.mem_map.mp he'
    rw [Expr.functionBodies]
    exact Expr.mem_functionBodiesEntries.mpr ⟨entry, hentry, hbody⟩
  | number | text | boolean | undefined | var | binary | unary | index | field | lambda =>
    grind [Expr.parts, Expr.functionBodies]

theorem Stmt.mem_functionBodies_of_mem_parts {s : Stmt Unit} {e : Expr Unit} (he : e ∈ s.parts)
    (hbody : body ∈ e.functionBodies) : body ∈ s.functionBodies := by
  cases s with
  | letVar a x init => cases init <;> grind [Stmt.parts, Stmt.functionBodies]
  | ret a e => cases e <;> grind [Stmt.parts, Stmt.functionBodies]
  | ifElse a condition yes no => cases no <;> grind [Stmt.parts, Stmt.functionBodies]
  | function | expr | block | whileLoop | forEach | tryCatch | throw | brk | cont =>
    grind [Stmt.parts, Stmt.functionBodies]

theorem Stmt.mem_functionBodies_of_mem_bodies {s s' : Stmt Unit} (hs' : s' ∈ s.bodies)
    (hbody : body ∈ s'.functionBodies) : body ∈ s.functionBodies := by
  have hin : ∀ {code : List (Stmt Unit)}, s' ∈ code → body ∈ Stmt.functionBodiesList code :=
    fun hmem => Stmt.mem_functionBodiesList.mpr ⟨s', hmem, hbody⟩
  cases s with
  | block a code =>
    rw [Stmt.functionBodies]
    exact hin hs'
  | ifElse a condition yes no =>
    rcases List.mem_append.mp hs' with hyes | hno
    · cases no <;> simp [hin hyes]
    · cases no with
      | none => cases hno
      | some no =>
        have hbody' : body ∈ Stmt.functionBodiesList no := hin hno
        simp [hbody']
  | whileLoop a e code | forEach a name e code =>
    rw [Stmt.functionBodies]
    exact List.mem_append_right _ (hin hs')
  | tryCatch a code name handler =>
    rcases List.mem_append.mp hs' with hcode | hhandler
    · simp [hin hcode]
    · simp [hin hhandler]
  | letVar | ret | function | expr | throw | brk | cont => cases hs'

end Parts

/-- The trees whose functions are left by returns only.  The body of a function is such a tree if it
is itself left by returns only. -/
def Heredity.returning : Heredity where
  expr e := ∀ body ∈ e.functionBodies, OnlyReturns body
  stmt s := ∀ body ∈ s.functionBodies, OnlyReturns body
  code body := OnlyReturns body ∧ ∀ body' ∈ Stmt.functionBodiesList body, OnlyReturns body'
  expr_of_expr he he' body hbody := he body (Expr.mem_functionBodies_of_mem_parts he' hbody)
  code_of_expr {e body} he hbody := by
    cases e with
    | lambda a name params code =>
      cases List.mem_singleton.mp hbody
      rw [Expr.functionBodies, List.forall_mem_cons] at he
      exact he
    | _ => cases hbody
  expr_of_stmt hs he body hbody := hs body (Stmt.mem_functionBodies_of_mem_parts he hbody)
  stmt_of_stmt hs hs' body hbody := hs body (Stmt.mem_functionBodies_of_mem_bodies hs' hbody)
  code_of_stmt {s body} hs hbody := by
    cases s with
    | function a name params code =>
      cases List.mem_singleton.mp hbody
      rw [Stmt.functionBodies, List.forall_mem_cons] at hs
      exact hs
    | _ => cases hbody
  stmt_of_code hcode hs body hbody :=
    hcode.2 body (Stmt.mem_functionBodiesList.mpr ⟨_, hs, hbody⟩)

/-! ## Visits -/

namespace Visit

variable {v : Visit} {n : Nat} {m m' : Machine}

/-- **A function is left by returns only**, or it comes to its end. -/
theorem next_or_ret_of_call {f : FunctionId} {c : Closure} {receiver : Option Value}
    {args : List Value} {flow : Completion}
    (h : Heredity.returning.Governs ⟨n, .call (.function f) receiver args, m⟩)
    (hf : m.store.function? f = some (.closure c))
    (hbody : runAll (execStmt n) .undefined c.body (m.enterCall c args) = .ok flow m') :
    ∃ value, flow = .next value ∨ flow = .ret value := by
  have hcode : OnlyReturns c.body := (h.store.function? hf).1
  have hleaves := leavesBy_runAll (fun s _ => leavesBy_exec n s) _ _ _ hbody
  cases flow with
  | next value => exact ⟨value, .inl rfl⟩
  | ret value => exact ⟨value, .inr rfl⟩
  | brk => cases hcode .brk (hleaves .brk rfl)
  | cont => cases hcode .cont (hleaves .cont rfl)

/-- **A complaint about jumps was thrown.**  If it is raised although there is nothing to complain
about, a `throw` statement has raised this very text. -/
theorem exists_throw_of_misplaced {e : EvalError} (hv : Heredity.returning.Governs v)
    (he : e.misplaced = true) (h : v.Halts (.raise (.text e.message)) m') :
    ∃ n a value k k', Leads v ⟨n + 1, .stmt (.throw a value), k⟩ ∧
      evalExpr n value k = .ok (.text e.message) k' := by
  obtain ⟨w, hleads, horigin⟩ := h.exists_originates
  have hw : Heredity.returning.Governs w :=
    hv.reaches (hleads.lift id fun _ _ => .inl)
  generalize hpayload : Value.text e.message = payload at horigin
  cases horigin with
  | @thrown n a value k k' _ hvalue => exact ⟨n, a, value, k, k', hleads, hpayload ▸ hvalue⟩
  | left hf hbody hflow =>
    obtain ⟨value, rfl | rfl⟩ := next_or_ret_of_call hw hf hbody
    · rcases hflow with hflow | hflow <;> cases hflow
    · rcases hflow with hflow | hflow <;> cases hflow
  | error he' =>
    injection hpayload with hmessage
    exact absurd hmessage.symm (EvalError.message_ne_of_misplaced he he')

end Visit

end Script
