import Script.Proofs.Eval.Visit

/-!
# The code that is run comes from the program

A program can run no code but its own: the statements of its text, and the bodies of the function
objects that it has made from them.  So let a sort of trees be such that the parts of a tree of the
sort are of the sort too.  If the text of a program and the function objects that it starts with are
of the sort, then so is all the code that it ever runs.

## Main definitions

* `Heredity`: a sort of trees that parts inherit.
* `Heredity.guarantee`: function objects have bodies of the sort.
* `Heredity.Permits`, `Heredity.Governs`: tasks and visits of the sort.

## Main results

* `Heredity.keeps_eval_exec`: evaluation makes no other function objects.
* `Heredity.Governs.reaches`: the visits inside a visit are of the sort.
-/

namespace Script

open Eval Outcome

/-- **A sort of trees that parts inherit.**  What an expression or a statement evaluates and runs is
of the sort if it is itself, and so is the code of the functions that it makes. -/
structure Heredity where
  expr : Expr Unit → Prop
  stmt : Stmt Unit → Prop
  /-- The bodies of functions. -/
  code : List (Stmt Unit) → Prop
  expr_of_expr : ∀ {e e'}, expr e → e' ∈ e.parts → expr e'
  code_of_expr : ∀ {e body}, expr e → body ∈ e.codes → code body
  expr_of_stmt : ∀ {s e}, stmt s → e ∈ s.parts → expr e
  stmt_of_stmt : ∀ {s s'}, stmt s → s' ∈ s.bodies → stmt s'
  code_of_stmt : ∀ {s body}, stmt s → body ∈ s.codes → code body
  stmt_of_code : ∀ {body s}, code body → s ∈ body → stmt s

namespace Heredity

variable {H : Heredity} {d : Nat}

/-! ## Function objects -/

/-- The bodies of function objects are of the sort. -/
def guarantee (H : Heredity) : Guarantee where
  good
    | .native _ => True
    | .closure c => H.code c.body
  good_native _ := trivial
  total := False

/-- **Evaluation makes no function objects of another sort.**  The induction is on the fuel. -/
theorem keeps_eval_exec (H : Heredity) (fuel : Nat) :
    (∀ d e, H.expr e → H.guarantee.Keeps d (evalExpr fuel e)) ∧
      ∀ d s, H.stmt s → H.guarantee.Keeps d (execStmt fuel s) := by
  induction fuel with
  | zero =>
    exact ⟨fun _ _ _ _ _ hm => ⟨.refl hm, False.elim⟩, fun _ _ _ _ _ hm => ⟨.refl hm, False.elim⟩⟩
  | succ fuel ih =>
    obtain ⟨heval, hexec⟩ := ih
    constructor
    · intro d e he
      refine Guarantee.keeps_evalWith (fun e' he' => heval d e' (H.expr_of_expr he he'))
        (fun _ c hc s hs => ?_) fun body hbody _ _ _ => H.code_of_expr he hbody
      -- the body of a function object is no part of the call, but it is of the sort too
      exact hexec (d + 1) s (H.stmt_of_code hc hs)
    · intro d s hs
      exact Guarantee.keeps_execWith False.elim (fun e he => heval d e (H.expr_of_stmt hs he))
        (fun s' hs' => hexec d s' (H.stmt_of_stmt hs hs'))
        fun body hbody _ _ _ => H.code_of_stmt hs hbody

/-- The same holds of a statement at the top level. -/
theorem keeps_evaluate (H : Heredity) (fuel d : Nat) {s : Stmt Unit} (hs : H.stmt s) :
    H.guarantee.Keeps d (s.evaluate fuel) := by
  refine Guarantee.keeps_bind ((H.keeps_eval_exec fuel).2 d s hs) fun flow => ?_
  cases flow with
  | next v => exact Guarantee.keeps_pure v
  | ret | brk | cont => exact Guarantee.keeps_raise _

/-! ## Tasks -/

/-- A task of the sort: what it evaluates and runs is.  A call runs the body of a function
object. -/
def Permits (H : Heredity) : Task → Prop
  | .expr e => H.expr e
  | .exprs es => ∀ e ∈ es, H.expr e
  | .entries es => ∀ e ∈ es, H.expr e.2
  | .callee e => H.expr e.calleePart
  | .place _ target => ∀ e ∈ target.parts, H.expr e
  | .call .. => True
  | .stmt s => H.stmt s
  | .stmts _ code | .body _ code | .items _ code _ => ∀ s ∈ code, H.stmt s
  | .rounds condition code _ => H.expr condition ∧ ∀ s ∈ code, H.stmt s

theorem keeps_run (fuel d : Nat) {t : Task} (ht : H.Permits t) :
    H.guarantee.Keeps d (t.run fuel) := by
  obtain ⟨heval, hexec⟩ := H.keeps_eval_exec fuel
  cases t with
  | expr e => exact heval d e ht
  | exprs es => exact Guarantee.keeps_evalAll fun e he => heval d e (ht e he)
  | entries es => exact Guarantee.keeps_evalEntries fun e he => heval d e.2 (ht e he)
  | callee e => exact Guarantee.keeps_evalCallee (heval d _ ht)
  | place value target => exact Guarantee.keeps_assignTo (fun e he => heval d e (ht e he)) value
  | call f receiver args =>
    exact Guarantee.keeps_call (fun _ c hc s hs => hexec (d + 1) s (H.stmt_of_code hc hs)) f
      receiver args
  | stmt s => exact hexec d s ht
  | stmts last code => exact Guarantee.keeps_runAll fun s hs => hexec d s (ht s hs)
  | body bindings code => exact Guarantee.keeps_runInner fun s hs => hexec d s (ht s hs)
  | rounds condition code left =>
    exact Guarantee.keeps_whileLoop id (heval d condition ht.1)
      (Guarantee.keeps_runInner fun s hs => hexec d s (ht.2 s hs)) left
  | items name code left =>
    exact Guarantee.keeps_forLoop
      (fun _ => Guarantee.keeps_runInner fun s hs => hexec d s (ht s hs)) left

/-! ## Visits -/

/-- The task of a visit is of the sort, and so are the bodies of the function objects at its
start. -/
structure Governs (H : Heredity) (v : Visit) : Prop where
  task : H.Permits v.task
  store : H.guarantee.Holds v.machine.store

namespace Governs

variable {v w : Visit}

section Outcomes

variable {n : Nat} {t : Task} {m k : Machine}

theorem holds_of_ok (h : H.Governs ⟨n, t, m⟩) {a : t.Result} (hrun : t.run n m = .ok a k) :
    H.guarantee.Holds k.store := by
  have hkept := (keeps_run n m.depth h.task m rfl h.store).1.holds
  rwa [after_of_ok hrun] at hkept

theorem holds_of_error (h : H.Governs ⟨n, t, m⟩) {s : Stop} (hrun : t.run n m = .error s k) :
    H.guarantee.Holds k.store := by
  have hkept := (keeps_run n m.depth h.task m rfl h.store).1.holds
  rwa [after_of_error hrun] at hkept

end Outcomes

/-- What a visit is to do is a part of the task that enters it, or the body of a function object. -/
theorem permits_of_enters (hv : H.Governs v) (h : Visit.Enters v w) : H.Permits w.task := by
  obtain ⟨htask, hstore⟩ := hv
  cases h with
  | left | operand | assigned | callee | indexed | owner => exact H.expr_of_expr htask (.head _)
  | right | index => exact H.expr_of_expr htask (.tail _ (.head _))
  | place | args => exact fun e he => H.expr_of_expr htask (.tail _ he)
  | call => trivial
  | array => exact fun e he => H.expr_of_expr htask he
  | map => exact fun e he => H.expr_of_expr htask (List.mem_map_of_mem he)
  | exprsHead | entriesHead => exact htask _ (.head _)
  | exprsTail | entriesTail => exact fun e he => htask e (.tail _ he)
  | calleeOwner => exact htask
  | calleeValue hself => exact Expr.calleePart_of_ne_field hself ▸ htask
  | placeOwner | placeIndexed => exact htask _ (.head _)
  | placeIndex => exact htask _ (.tail _ (.head _))
  | code hf => exact fun s hs => H.stmt_of_code (hstore.function? hf) hs
  | stmts => exact htask
  | stmtsHead => exact htask _ (.head _)
  | stmtsTail => exact fun s hs => htask s (.tail _ hs)
  | init | expr | condition | iterated | thrown | returned =>
    exact H.expr_of_stmt htask (.head _)
  | block => exact fun s hs => H.stmt_of_stmt htask hs
  | yes => exact fun s hs => H.stmt_of_stmt htask (List.mem_append_left _ hs)
  | no => exact fun s hs => H.stmt_of_stmt htask (List.mem_append_right _ hs)
  | loop => exact ⟨H.expr_of_stmt htask (.head _), fun s hs => H.stmt_of_stmt htask hs⟩
  | items => exact fun s hs => H.stmt_of_stmt htask hs
  | handler => exact fun s hs => H.stmt_of_stmt htask (List.mem_append_right _ hs)
  | roundTest => exact htask.1
  | roundBody => exact htask.2
  | roundNext => exact htask
  | itemBody | itemNext => exact htask

theorem permits_of_tries (hv : H.Governs v) (h : Visit.Tries v w) : H.Permits w.task := by
  cases h with
  | body => exact fun s hs => H.stmt_of_stmt hv.task (List.mem_append_left _ hs)

theorem tries (hv : H.Governs v) (h : Visit.Tries v w) : H.Governs w := by
  refine ⟨hv.permits_of_tries h, ?_⟩
  cases h with
  | body => exact hv.store

/-- The bodies of the function objects at the start of a visit are of the sort. -/
theorem holds_of_enters (hv : H.Governs v) (h : Visit.Enters v w) :
    H.guarantee.Holds w.machine.store := by
  -- the visits that come before `w` are of the sort as well, and `v` enters them too
  have henter : ∀ {u : Visit}, Visit.Enters v u → u.machine = v.machine → H.Governs u :=
    fun hu heq => ⟨hv.permits_of_enters hu, heq ▸ hv.store⟩
  have hstore := hv.store
  cases h with
  | left | operand | assigned | callee | array | map | indexed | owner | exprsHead | entriesHead
  | calleeOwner | placeOwner | placeIndexed | stmtsHead | init | expr | condition | iterated
  | thrown | returned | roundTest | itemBody | calleeValue | block | loop => exact hstore
  | stmts | code => exact hstore.of_functions_eq rfl
  | right h₁ => exact (henter .left rfl).holds_of_ok (t := .expr _) h₁
  | place h₁ => exact (henter .assigned rfl).holds_of_ok (t := .expr _) h₁
  | index h₁ => exact (henter .indexed rfl).holds_of_ok (t := .expr _) h₁
  | exprsTail h₁ => exact (henter .exprsHead rfl).holds_of_ok (t := .expr _) h₁
  | entriesTail h₁ => exact (henter .entriesHead rfl).holds_of_ok (t := .expr _) h₁
  | placeIndex h₁ => exact (henter .placeIndexed rfl).holds_of_ok (t := .expr _) h₁
  | yes h₁ | no h₁ => exact (henter .condition rfl).holds_of_ok (t := .expr _) h₁
  | items h₁ => exact (henter .iterated rfl).holds_of_ok (t := .expr _) h₁
  | roundBody h₁ => exact (henter .roundTest rfl).holds_of_ok (t := .expr _) h₁
  | args hcallee => exact (henter .callee rfl).holds_of_ok (t := .callee _) hcallee
  | stmtsTail hhead => exact (henter .stmtsHead rfl).holds_of_ok (t := .stmt _) hhead
  | itemNext hbody => exact (henter .itemBody rfl).holds_of_ok (t := .body _ _) hbody
  | call hcallee hargs =>
    have hfirst := (henter .callee rfl).holds_of_ok (t := .callee _) hcallee
    have hgoverns : H.Governs ⟨_, .exprs _, _⟩ := ⟨hv.permits_of_enters (.args hcallee), hfirst⟩
    exact hgoverns.holds_of_ok hargs
  | roundNext htest htrue hbody =>
    have hfirst := (henter .roundTest rfl).holds_of_ok (t := .expr _) htest
    have hgoverns : H.Governs ⟨_, .body _ _, _⟩ :=
      ⟨hv.permits_of_enters (.roundBody htest htrue), hfirst⟩
    exact hgoverns.holds_of_ok hbody
  | handler hbody =>
    have hgoverns : H.Governs ⟨_, .body .empty _, _⟩ := hv.tries .body
    exact hgoverns.holds_of_error hbody

/-- **What is entered comes from what enters it.** -/
theorem enters (hv : H.Governs v) (h : Visit.Enters v w) : H.Governs w :=
  ⟨hv.permits_of_enters h, hv.holds_of_enters h⟩

/-- **The code that is run comes from the program.** -/
theorem reaches (hv : H.Governs v) (h : Visit.Reaches v w) : H.Governs w := by
  induction h with
  | refl => exact hv
  | tail _ hstep ih =>
    rcases hstep with henters | htries
    · exact ih.enters henters
    · exact ih.tries htries

end Governs

end Heredity

end Script
