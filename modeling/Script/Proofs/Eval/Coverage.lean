import Script.Proofs.Eval.Visit

/-!
# What an evaluation depends on

A visit does nothing but what the visits inside it do, and what follows from them.  So two
evaluators that agree on the visits that one reaches agree on the visit itself.  In particular the
chains of `Visit.Reaches` miss no part of an evaluation.

The first use of this is that more fuel changes nothing.  If a visit does not run out of fuel,
neither does a visit that it reaches, since nothing handles that stop.

## Main definitions

* `Visit.Agrees`: an evaluator that does what `evalExpr` and `execStmt` do wherever a visit leads.

## Main results

* `Visit.evalWith_eq`, `Visit.execWith_eq`: agreement inside a visit is agreement on it.
* `fuel_succ`, `evaluate_of_le`: more fuel changes nothing.
-/

namespace Script

open Eval Outcome

section Combinators

variable {α : Type} {x y : Eval α} {m : Machine}

theorem within_congr_at {scope : ScopeId}
    (h : x { m with scope := scope } = y { m with scope := scope }) :
    within scope x m = within scope y m := by
  simp only [within, h]

theorem calling_congr_at
    (h : x { m with depth := m.depth + 1 } = y { m with depth := m.depth + 1 }) :
    calling x m = calling y m := by
  simp only [calling, h]

theorem catching_congr_at {f g : Value → Eval α} (hx : x m = y m)
    (hf : ∀ payload m', y m = .error (.raise payload) m' → f payload m' = g payload m') :
    catching x f m = catching y g m := by
  unfold catching
  rw [hx]
  cases h : y m with
  | ok a m' => rfl
  | error s m' =>
    cases s with
    | raise payload => exact hf payload m' h
    | exit _ | fault _ | outOfFuel => rfl

end Combinators

namespace Visit

variable {n : Nat} {eval : Expr Unit → Eval Value} {exec : Stmt Unit → Eval Completion}
variable {m : Machine} {v w : Visit}

/-- The evaluator given by `eval` and `exec` does what the one with fuel `n` does, wherever a visit
leads. -/
structure Agrees (n : Nat) (eval : Expr Unit → Eval Value) (exec : Stmt Unit → Eval Completion)
    (v : Visit) : Prop where
  expr : ∀ {e m}, Reaches v ⟨n, .expr e, m⟩ → eval e m = evalExpr n e m
  stmt : ∀ {s m}, Reaches v ⟨n, .stmt s, m⟩ → exec s m = execStmt n s m

theorem Agrees.of_reaches (h : Agrees n eval exec v) (hvw : Reaches v w) :
    Agrees n eval exec w :=
  ⟨fun hw => h.expr (hvw.trans hw), fun hw => h.stmt (hvw.trans hw)⟩

theorem Agrees.enters (h : Agrees n eval exec v) (hvw : Enters v w) : Agrees n eval exec w :=
  h.of_reaches (.single (.inl hvw))

theorem Agrees.tries (h : Agrees n eval exec v) (hvw : Tries v w) : Agrees n eval exec w :=
  h.of_reaches (.single (.inr hvw))

theorem Agrees.eval_eq {e : Expr Unit} (h : Agrees n eval exec v)
    (hv : Enters v ⟨n, .expr e, m⟩) : eval e m = evalExpr n e m :=
  h.expr (.single (.inl hv))

/-! ## Lists, callees and places -/

theorem evalAll_eq {es : List (Expr Unit)} (h : Agrees n eval exec ⟨n, .exprs es, m⟩) :
    evalAll eval es m = evalAll (evalExpr n) es m := by
  induction es generalizing m with
  | nil => rfl
  | cons e es ih =>
    refine bind_congr_at (h.eval_eq .exprsHead) fun v m' hv => ?_
    exact bind_congr_at (ih (h.enters (.exprsTail hv))) fun _ _ _ => rfl

theorem evalEntries_eq {es : List (String × Expr Unit)}
    (h : Agrees n eval exec ⟨n, .entries es, m⟩) :
    evalEntries eval es m = evalEntries (evalExpr n) es m := by
  induction es generalizing m with
  | nil => rfl
  | cons e es ih =>
    refine bind_congr_at (h.eval_eq .entriesHead) fun v m' hv => ?_
    exact bind_congr_at (ih (h.enters (.entriesTail hv))) fun _ _ _ => rfl

theorem evalCallee_eq {e : Expr Unit} (h : Agrees n eval exec ⟨n, .callee e, m⟩) :
    evalCallee eval e m = evalCallee (evalExpr n) e m := by
  by_cases hfield : ∃ a e' name, e = .field a e' name
  · obtain ⟨a, e', name, rfl⟩ := hfield
    exact bind_congr_at (h.eval_eq .calleeOwner) fun _ _ _ => rfl
  · have hself : ∀ a e' name, e ≠ .field a e' name := fun a e' name heq =>
      hfield ⟨a, e', name, heq⟩
    rw [evalCallee_of_ne_field hself, evalCallee_of_ne_field hself]
    exact bind_congr_at (h.eval_eq (.calleeValue hself)) fun _ _ _ => rfl

theorem assignTo_eq {value : Value} {target : Target Unit}
    (h : Agrees n eval exec ⟨n, .place value target, m⟩) :
    assignTo eval value target m = assignTo (evalExpr n) value target m := by
  cases target with
  | var a name => rfl
  | field a container name => exact bind_congr_at (h.eval_eq .placeOwner) fun _ _ _ => rfl
  | index a container key =>
    refine bind_congr_at (h.eval_eq .placeIndexed) fun target m' hcontainer => ?_
    exact bind_congr_at (h.eval_eq (.placeIndex hcontainer)) fun _ _ _ => rfl

/-! ## Bodies, loops and calls -/

theorem runAll_eq {last : Value} {body : List (Stmt Unit)}
    (h : Agrees n eval exec ⟨n, .stmts last body, m⟩) :
    runAll exec last body m = runAll (execStmt n) last body m := by
  induction body generalizing m last with
  | nil => rfl
  | cons s body ih =>
    refine bind_congr_at (h.stmt (.single (.inl .stmtsHead))) fun flow m' hflow => ?_
    cases flow with
    | next v => exact ih (h.enters (.stmtsTail hflow))
    | ret _ | brk | cont => rfl

theorem runInner_eq {bindings : Dict Value} {body : List (Stmt Unit)}
    (h : Agrees n eval exec ⟨n, .body bindings body, m⟩) :
    runInner exec bindings body m = runInner (execStmt n) bindings body m :=
  within_congr_at (runAll_eq (h.enters .stmts))

theorem callClosure_eq {c : Closure} {args : List Value}
    (h : args.length = c.params.length → m.depth < maxCallDepth →
      Agrees n eval exec ⟨n, .stmts .undefined c.body, m.enterCall c args⟩) :
    callClosure exec c args m = callClosure (execStmt n) c args m := by
  unfold callClosure
  by_cases hargs : args.length = c.params.length
  · rw [if_neg (fun hne => hne hargs), if_neg (fun hne => hne hargs)]
    refine bind_congr_at rfl fun d m' hd => ?_
    cases hd
    by_cases hdepth : maxCallDepth ≤ m.depth
    · rw [if_pos hdepth, if_pos hdepth]
      rfl
    · rw [if_neg hdepth, if_neg hdepth]
      refine bind_congr_at rfl fun scope m' hscope => ?_
      cases hscope
      refine bind_congr_at ?_ fun _ _ _ => rfl
      exact calling_congr_at (within_congr_at (runAll_eq (h hargs (Nat.lt_of_not_le hdepth))))
  · rw [if_pos hargs, if_pos hargs]
    rfl

theorem call_eq {f : Value} {receiver : Option Value} {args : List Value}
    (h : Agrees n eval exec ⟨n, .call f receiver args, m⟩) :
    Eval.call exec f receiver args m = Eval.call (execStmt n) f receiver args m := by
  cases f with
  | function f =>
    refine bind_congr_at rfl fun σ m' hσ => ?_
    cases hσ
    cases hf : m.store.function? f with
    | none => rfl
    | some g =>
      cases g with
      | native g => rfl
      | closure c => exact callClosure_eq fun hargs hdepth => h.enters (.code hf hargs hdepth)
  | undefined | boolean _ | number _ | text _ | array _ | map _ => rfl

theorem whileLoop_eq {e : Expr Unit} {body : List (Stmt Unit)} {k : Nat}
    (h : Agrees n eval exec ⟨n, .rounds e body k, m⟩) :
    whileLoop (eval e) (runInner exec .empty body) k m =
      whileLoop (evalExpr n e) (runInner (execStmt n) .empty body) k m := by
  induction k generalizing m with
  | zero => rfl
  | succ k ih =>
    refine bind_congr_at (h.eval_eq .roundTest) fun v m' hv => ?_
    by_cases htruthy : v.truthy = true
    · rw [if_pos htruthy, if_pos htruthy]
      refine bind_congr_at (runInner_eq (h.enters (.roundBody hv htruthy))) fun flow m'' hflow => ?_
      cases flow with
      | next _ | cont => exact ih (h.enters (.roundNext hv htruthy hflow rfl))
      | ret _ | brk => rfl
    · rw [if_neg htruthy, if_neg htruthy]

theorem forLoop_eq {name : String} {body : List (Stmt Unit)} {items : List Value}
    (h : Agrees n eval exec ⟨n, .items name body items, m⟩) :
    forLoop (runBinding exec name body) items m =
      forLoop (runBinding (execStmt n) name body) items m := by
  induction items generalizing m with
  | nil => rfl
  | cons item items ih =>
    refine bind_congr_at (runInner_eq (h.enters .itemBody)) fun flow m' hflow => ?_
    cases flow with
    | next _ | cont => exact ih (h.enters (.itemNext hflow rfl))
    | ret _ | brk => rfl

/-! ## Expressions and statements -/

/-- **An expression depends on the visits inside it.** -/
theorem evalWith_eq {e : Expr Unit} (h : Agrees n eval exec ⟨n + 1, .expr e, m⟩) :
    e.evalWith eval exec m = evalExpr (n + 1) e m := by
  cases e with
  | number _ _ | text _ _ | boolean _ _ | undefined _ | var _ _ | lambda _ _ _ _ => rfl
  | binary a op left right =>
    refine bind_congr_at (h.eval_eq .left) fun v m' hv => ?_
    cases hop : op.shortcut? v with
    | some _ => rfl
    | none => exact bind_congr_at (h.eval_eq (.right hv hop)) fun _ _ _ => rfl
  | unary a op operand => exact bind_congr_at (h.eval_eq .operand) fun _ _ _ => rfl
  | assign a target value =>
    refine bind_congr_at (h.eval_eq .assigned) fun v m' hv => ?_
    exact bind_congr_at (assignTo_eq (h.enters (.place hv))) fun _ _ _ => rfl
  | call a callee args =>
    refine bind_congr_at (evalCallee_eq (h.enters .callee)) fun p m' hp => ?_
    refine bind_congr_at (evalAll_eq (h.enters (.args hp))) fun vs m'' hvs => ?_
    exact call_eq (h.enters (.call hp hvs))
  | array a items => exact bind_congr_at (evalAll_eq (h.enters .array)) fun _ _ _ => rfl
  | map a entries => exact bind_congr_at (evalEntries_eq (h.enters .map)) fun _ _ _ => rfl
  | index a container key =>
    refine bind_congr_at (h.eval_eq .indexed) fun v m' hv => ?_
    exact bind_congr_at (h.eval_eq (.index hv)) fun _ _ _ => rfl
  | field a container name => exact bind_congr_at (h.eval_eq .owner) fun _ _ _ => rfl

/-- **A statement depends on the visits inside it.** -/
theorem execWith_eq {s : Stmt Unit} (h : Agrees n eval exec ⟨n + 1, .stmt s, m⟩) :
    s.execWith n eval exec m = execStmt (n + 1) s m := by
  cases s with
  | function _ _ _ _ | brk _ | cont _ => rfl
  | letVar a name init =>
    cases init with
    | none => rfl
    | some e => exact bind_congr_at (h.eval_eq .init) fun _ _ _ => rfl
  | expr a e => exact bind_congr_at (h.eval_eq .expr) fun _ _ _ => rfl
  | block a body => exact runInner_eq (h.enters .block)
  | ifElse a condition yes no =>
    refine bind_congr_at (h.eval_eq .condition) fun v m' hv => ?_
    cases htruthy : v.truthy with
    | true => exact bind_congr_at (runInner_eq (h.enters (.yes hv htruthy))) fun _ _ _ => rfl
    | false =>
      cases no with
      | none => rfl
      | some no => exact bind_congr_at (runInner_eq (h.enters (.no hv htruthy))) fun _ _ _ => rfl
  | whileLoop a condition body => exact whileLoop_eq (h.enters .loop)
  | forEach a name items body =>
    refine bind_congr_at (h.eval_eq .iterated) fun v m' hv => ?_
    refine bind_congr_at rfl fun σ m'' hσ => ?_
    cases hσ
    cases hitems : m'.store.items v with
    | error _ => rfl
    | ok vs => exact forLoop_eq (h.enters (.items hv hitems))
  | tryCatch a body name handler =>
    refine bind_congr_at ?_ fun _ _ _ => rfl
    refine catching_congr_at (runInner_eq (h.tries .body)) fun payload m' hbody => ?_
    exact runInner_eq (h.enters (.handler hbody))
  | throw a e => exact bind_congr_at (h.eval_eq .thrown) fun _ _ _ => rfl
  | ret a e =>
    cases e with
    | none => rfl
    | some e => exact bind_congr_at (h.eval_eq .returned) fun _ _ _ => rfl

end Visit

/-! ## Fuel -/

/-- A first step that runs out of fuel is the end. -/
theorem Exhausts.bind {α β : Type} {x : Eval α} {f : α → Eval β} {m : Machine}
    (h : Exhausts x m) : Exhausts (x >>= f) m := by
  obtain ⟨m', hx⟩ := h
  exact ⟨m', bind_of_error hx⟩

theorem exhausts_bind_of_ok {α β : Type} {x : Eval α} {f : α → Eval β} {m m' : Machine} {a : α}
    (hx : x m = .ok a m') : Exhausts (x >>= f) m ↔ Exhausts (f a) m' := by
  unfold Exhausts
  rw [bind_of_ok hx]

/-- A loop that ends within its rounds ends the same way if it may have another one. -/
theorem whileLoop_succ {condition : Eval Value} {body : Eval Completion} {k : Nat} {m : Machine}
    (h : ¬ Exhausts (whileLoop condition body k) m) :
    whileLoop condition body (k + 1) m = whileLoop condition body k m := by
  induction k generalizing m with
  | zero => exact absurd ⟨m, rfl⟩ h
  | succ k ih =>
    refine bind_congr_at rfl fun v m' hv => ?_
    unfold whileLoop at h
    rw [exhausts_bind_of_ok hv] at h
    by_cases htruthy : v.truthy = true
    · rw [if_pos htruthy] at h
      rw [if_pos htruthy, if_pos htruthy]
      refine bind_congr_at rfl fun flow m'' hflow => ?_
      rw [exhausts_bind_of_ok hflow] at h
      cases flow with
      | next _ | cont => exact ih h
      | ret _ | brk => rfl
    · rw [if_neg htruthy, if_neg htruthy]

theorem execWith_succ {s : Stmt Unit} {k : Nat} {eval : Expr Unit → Eval Value}
    {exec : Stmt Unit → Eval Completion} {m : Machine}
    (h : ¬ Exhausts (s.execWith k eval exec) m) :
    s.execWith (k + 1) eval exec m = s.execWith k eval exec m := by
  cases s with
  | whileLoop a condition body => exact whileLoop_succ h
  | letVar _ _ _ | function _ _ _ _ | expr _ _ | block _ _ | ifElse _ _ _ _ | forEach _ _ _ _
  | tryCatch _ _ _ _ | throw _ _ | ret _ _ | brk _ | cont _ => rfl

/-- Inside a visit that does not run out of fuel, an evaluator with more fuel does the same. -/
theorem Visit.agrees_succ {n : Nat} {v : Visit} (hv : ∀ m', ¬ v.Halts .outOfFuel m')
    (heval : ∀ e m, ¬ Exhausts (evalExpr n e) m → evalExpr (n + 1) e m = evalExpr n e m)
    (hexec : ∀ s m, ¬ Exhausts (execStmt n s) m → execStmt (n + 1) s m = execStmt n s m) :
    Agrees n (evalExpr (n + 1)) (execStmt (n + 1)) v := by
  constructor
  -- want of fuel inside would come out of the visit, since nothing handles it
  · intro e m hw
    refine heval e m ?_
    rintro ⟨m', hm'⟩
    exact hv _ (Reaches.halts hw (by simp) hm')
  · intro s m hw
    refine hexec s m ?_
    rintro ⟨m', hm'⟩
    exact hv _ (Reaches.halts hw (by simp) hm')

/-- **More fuel changes nothing**, for an evaluation that has enough. -/
theorem fuel_succ (n : Nat) :
    (∀ e m, ¬ Exhausts (evalExpr n e) m → evalExpr (n + 1) e m = evalExpr n e m) ∧
      ∀ s m, ¬ Exhausts (execStmt n s) m → execStmt (n + 1) s m = execStmt n s m := by
  induction n with
  | zero => exact ⟨fun _ m h => absurd ⟨m, rfl⟩ h, fun _ m h => absurd ⟨m, rfl⟩ h⟩
  | succ n ih =>
    obtain ⟨heval, hexec⟩ := ih
    constructor
    · intro e m h
      have hv : ∀ m', ¬ Visit.Halts ⟨n + 1, .expr e, m⟩ .outOfFuel m' := fun m' hm' => h ⟨m', hm'⟩
      exact Visit.evalWith_eq (Visit.agrees_succ hv heval hexec)
    · intro s m h
      have hv : ∀ m', ¬ Visit.Halts ⟨n + 1, .stmt s, m⟩ .outOfFuel m' := fun m' hm' => h ⟨m', hm'⟩
      -- the rounds of a loop grow with the fuel too, so they are changed in a step of their own
      have heq : s.execWith n (evalExpr (n + 1)) (execStmt (n + 1)) m = execStmt (n + 1) s m :=
        Visit.execWith_eq (Visit.agrees_succ hv heval hexec)
      have hsucc : ¬ Exhausts (s.execWith n (evalExpr (n + 1)) (execStmt (n + 1))) m := by
        unfold Exhausts
        rw [heq]
        exact h
      exact (execWith_succ hsucc).trans heq

/-- The end of a top-level statement needs no fuel. -/
theorem exhausts_evaluate_iff {n : Nat} {s : Stmt Unit} {m : Machine} :
    Exhausts (s.evaluate n) m ↔ Exhausts (execStmt n s) m := by
  refine ⟨fun h => ?_, Exhausts.bind⟩
  unfold Stmt.evaluate at h
  cases hs : execStmt n s m with
  | ok flow m' =>
    rw [exhausts_bind_of_ok hs] at h
    obtain ⟨m'', hflow⟩ := h
    cases flow <;> cases hflow
  | error stop m' =>
    obtain ⟨m'', hm''⟩ := h
    rw [bind_of_error hs] at hm''
    injection hm'' with hstop _
    exact ⟨m', hstop ▸ hs⟩

theorem evaluate_of_le {n n' : Nat} {s : Stmt Unit} {m : Machine}
    (h : ¬ Exhausts (s.evaluate n) m) (hle : n ≤ n') : s.evaluate n' m = s.evaluate n m := by
  induction hle with
  | refl => rfl
  | @step k _ ih =>
    have hk : ¬ Exhausts (execStmt k s) m := by
      rw [← exhausts_evaluate_iff]
      unfold Exhausts
      rw [ih]
      exact h
    have hstep : s.evaluate (k + 1) m = s.evaluate k m :=
      bind_congr_at ((fuel_succ k).2 s m hk) fun _ _ _ => rfl
    exact hstep.trans ih

end Script
