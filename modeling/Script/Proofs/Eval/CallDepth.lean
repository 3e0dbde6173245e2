import Script.Proofs.Eval.Visit

/-!
# Scopes and call depth

The scope and the call depth of the machine belong to the visit that is in progress.  Whatever a
visit comes to, it leaves both as it found them.  A body has a new scope inside that of the visit
around it, the body of a function also counts as one call more, and every other step of a visit
takes place in the scope and at the depth of the visit itself.

So the call depth is the number of function bodies in progress at every moment, and it is the same
in a handler and after it as it was before the `try` statement, from however deep the raised value
came.

## Main definitions

* `Visit.Inside`: a visit inside another, with the function bodies in progress between them.
* `Visit.Placed`: the scope and the depth at which a step of a visit takes place.
* `Machine.leaveCall`: what becomes of the end of a function body.

## Main results

* `Visit.placed_of_enters`: one step of a visit.
* `Visit.Inside.depth_eq`, `Visit.Inside.depth_le`: any number of steps.
* `call_closure_eq`: a call runs the body of its function unless the call depth is used up.
* `scope_and_depth_discipline`: what holds at every moment of an evaluation.
-/

namespace Script

open Eval Outcome

/-! ## Scope and depth are restored -/

/-- However a task ends, the scope and the call depth are those before it. -/
theorem Task.restores (fuel : Nat) (t : Task) (m : Machine) :
    (after (t.run fuel) m).scope = m.scope ∧ (after (t.run fuel) m).depth = m.depth := by
  obtain ⟨hkept, -⟩ := t.keeps_run fuel m.depth m rfl (Guarantee.holds_frame _)
  exact ⟨hkept.scope, hkept.depth⟩

theorem Task.restores_of_ok {fuel : Nat} {t : Task} {m m' : Machine} {a : t.Result}
    (h : t.run fuel m = .ok a m') : m'.scope = m.scope ∧ m'.depth = m.depth := by
  have hrestores := t.restores fuel m
  rwa [after_of_ok h] at hrestores

theorem Task.restores_of_error {fuel : Nat} {t : Task} {m m' : Machine} {stop : Stop}
    (h : t.run fuel m = .error stop m') : m'.scope = m.scope ∧ m'.depth = m.depth := by
  have hrestores := t.restores fuel m
  rwa [after_of_error h] at hrestores

/-! ## Calls -/

/-- What the end of a function body means for the call, which was made in the machine `m`. -/
def Machine.leaveCall (m : Machine) :
    EStateM.Result Stop Machine Completion → EStateM.Result Stop Machine Value
  | .ok (.next v) m' => .ok v (m.withEffects m')
  | .ok (.ret v) m' => .ok v (m.withEffects m')
  | .ok .brk m' | .ok .cont m' =>
    .error (.raise (.text EvalError.loopControlInFunction.message)) (m.withEffects m')
  | .error stop m' => .error stop (m.withEffects m')

/-- What a call comes to in the machine `k` after the end of its function body. -/
def Completion.endCall (k : Machine) : Completion → EStateM.Result Stop Machine Value
  | next v | ret v => .ok v k
  | brk | cont => .error (.raise (.text EvalError.loopControlInFunction.message)) k

section Closures

variable {exec : Stmt Unit → Eval Completion} {m m' : Machine} {c : Closure} {args : List Value}

/-- A function body that comes to an end is the end of the call. -/
theorem callClosure_of_ok {flow : Completion} (hargs : args.length = c.params.length)
    (hdepth : m.depth < maxCallDepth)
    (h : runAll exec .undefined c.body (m.enterCall c args) = .ok flow m') :
    callClosure exec c args m = flow.endCall (m.leaveBody m') := by
  have hbody : calling (runBody exec c.body (m.enterCall c args).scope)
      { m with store := (m.enterCall c args).store } = .ok flow (m.leaveBody m') := by
    have hrun : runAll exec .undefined c.body { m with
        store := (m.enterCall c args).store, scope := (m.enterCall c args).scope,
        depth := m.depth + 1 } = .ok flow m' := h
    simp only [calling, runBody, within, hrun]
    rfl
  unfold callClosure
  rw [if_neg (fun hne => hne hargs)]
  show (if maxCallDepth ≤ m.depth then _ else _ : Eval Value) m = _
  rw [if_neg (Nat.not_le.mpr hdepth)]
  refine (bind_of_ok (t := { m with store := (m.enterCall c args).store }) rfl).trans ?_
  refine (bind_of_ok hbody).trans ?_
  cases flow <;> rfl

/-- A call is refused if the call depth is used up. -/
theorem callClosure_of_limit (hargs : args.length = c.params.length)
    (hdepth : ¬ m.depth < maxCallDepth) :
    callClosure exec c args m = .error (.raise (.text EvalError.recursionLimit.message)) m := by
  unfold callClosure
  rw [if_neg (fun hne => hne hargs)]
  show (if maxCallDepth ≤ m.depth then _ else _ : Eval Value) m = _
  rw [if_pos (Nat.not_lt.mp hdepth)]
  rfl

/-- **Calls.**  With the right number of arguments, a function of the program runs its body if the
call depth is not used up.  Otherwise the call raises an error, and nothing else happens. -/
theorem callClosure_eq {n : Nat} (hargs : args.length = c.params.length) :
    callClosure (execStmt n) c args m =
      if m.depth < maxCallDepth then
        m.leaveCall (runAll (execStmt n) .undefined c.body (m.enterCall c args))
      else .error (.raise (.text EvalError.recursionLimit.message)) m := by
  by_cases hdepth : m.depth < maxCallDepth
  · rw [if_pos hdepth]
    -- the body has come back to its own depth, so that one call less is the depth of the call
    cases h : runAll (execStmt n) .undefined c.body (m.enterCall c args) with
    | ok flow m' =>
      have hback := (Task.restores_of_ok (t := .stmts .undefined c.body) h).2
      rw [callClosure_of_ok hargs hdepth h, Machine.leaveBody_eq_withEffects hback]
      cases flow <;> rfl
    | error stop m' =>
      have hback := (Task.restores_of_error (t := .stmts .undefined c.body) h).2
      rw [Visit.callClosure_of_error hargs hdepth h, Machine.leaveBody_eq_withEffects hback]
      rfl
  · rw [if_neg hdepth, callClosure_of_limit hargs hdepth]

end Closures

theorem call_closure_eq {n : Nat} {m : Machine} {f : FunctionId} {c : Closure}
    {receiver : Option Value} {args : List Value}
    (hf : m.store.function? f = some (.closure c)) (hargs : args.length = c.params.length) :
    Eval.call (execStmt n) (.function f) receiver args m =
      if m.depth < maxCallDepth then
        m.leaveCall (runAll (execStmt n) .undefined c.body (m.enterCall c args))
      else .error (.raise (.text EvalError.recursionLimit.message)) m := by
  have hstore : getStore m = .ok m.store m := rfl
  refine (bind_of_ok hstore).trans ?_
  rw [hf]
  exact callClosure_eq hargs

namespace Visit

/-! ## The steps of a visit -/

/-- A new scope around which the given one stands. -/
def ScopeInside (m : Machine) (outer : ScopeId) : Prop :=
  ∃ bindings, m.store.scope? m.scope = some ⟨some outer, bindings⟩

/-- Where a step `x` of the visit `w` takes place.  A body has a scope inside that of the visit, and
a function body has a scope inside that of the function and counts as a call.  All other steps take
place where the visit does. -/
def Placed (w x : Visit) : Prop :=
  match w.task with
  | .body _ _ => ScopeInside x.machine w.machine.scope ∧ x.machine.depth = w.machine.depth
  | .call callee _ _ => (∃ f c, callee = .function f ∧
      w.machine.store.function? f = some (.closure c) ∧ ScopeInside x.machine c.scope) ∧
      x.machine.depth = w.machine.depth + 1
  | _ => x.machine.scope = w.machine.scope ∧ x.machine.depth = w.machine.depth

theorem scopeInside_enterBody (m : Machine) (bindings : Dict Value) :
    ScopeInside (m.enterBody bindings) m.scope :=
  ⟨bindings, by simp [Machine.enterBody, Store.newScope, Store.scope?]⟩

theorem scopeInside_enterCall (m : Machine) (c : Closure) (args : List Value) :
    ScopeInside (m.enterCall c args) c.scope :=
  ⟨_, by simp [Machine.enterCall, Store.newScope, Store.scope?]; rfl⟩

variable {v w x : Visit}

/-- **One step.** -/
theorem placed_of_enters (h : Enters w x) : Placed w x := by
  cases h with
  -- what is evaluated first
  | left | operand | assigned | callee | array | map | indexed | owner | exprsHead | entriesHead
  | calleeOwner | calleeValue | placeOwner | placeIndexed | stmtsHead | init | expr | block
  | condition | loop | iterated | thrown | returned | roundTest | itemBody => exact ⟨rfl, rfl⟩
  -- what is evaluated after something else
  | right h₁ | place h₁ | index h₁ | exprsTail h₁ | entriesTail h₁ | placeIndex h₁ | yes h₁
  | no h₁ | items h₁ | roundBody h₁ =>
    exact Task.restores_of_ok (t := .expr _) h₁
  | args h₁ => exact Task.restores_of_ok (t := .callee _) h₁
  | call h₁ h₂ =>
    have h₁' := Task.restores_of_ok (t := .callee _) h₁
    have h₂' := Task.restores_of_ok (t := .exprs _) h₂
    exact ⟨h₂'.1.trans h₁'.1, h₂'.2.trans h₁'.2⟩
  | stmtsTail h₁ => exact Task.restores_of_ok (t := .stmt _) h₁
  | handler h₁ => exact Task.restores_of_error (t := .body _ _) h₁
  | roundNext h₁ _ h₂ _ =>
    have h₁' := Task.restores_of_ok (t := .expr _) h₁
    have h₂' := Task.restores_of_ok (t := .body _ _) h₂
    exact ⟨h₂'.1.trans h₁'.1, h₂'.2.trans h₁'.2⟩
  | itemNext h₁ _ => exact Task.restores_of_ok (t := .body _ _) h₁
  -- bodies
  | stmts => exact ⟨scopeInside_enterBody _ _, rfl⟩
  | @code n m f c receiver args hf hargs hdepth =>
    exact ⟨⟨f, c, rfl, hf, scopeInside_enterCall m c args⟩, rfl⟩

theorem placed_of_tries (h : Tries w x) : Placed w x := by
  cases h with
  | body => exact ⟨rfl, rfl⟩

/-! ## Bodies in progress -/

/-- The visit takes place while `v` lasts, and the bodies of the functions `calls` are in progress
between the two, the innermost first. -/
inductive Inside (v : Visit) : List Closure → Visit → Prop
  | here : Inside v [] v
  | body {calls n m f c receiver args}
      (h : Inside v calls ⟨n, .call (.function f) receiver args, m⟩)
      (hf : m.store.function? f = some (.closure c)) (hargs : args.length = c.params.length)
      (hdepth : m.depth < maxCallDepth) :
      Inside v (c :: calls) ⟨n, .stmts .undefined c.body, m.enterCall c args⟩
  | step {calls w x} (h : Inside v calls w) (hstep : Enters w x)
      (hw : ∀ callee receiver args, w.task ≠ .call callee receiver args) : Inside v calls x
  | tries {calls w x} (h : Inside v calls w) (hstep : Tries w x) : Inside v calls x

/-- The only step of a call is the body of its function. -/
theorem Inside.enters {calls : List Closure} (h : Inside v calls w) (hstep : Enters w x) :
    ∃ calls', Inside v calls' x := by
  by_cases hw : ∃ callee receiver args, w.task = .call callee receiver args
  · obtain ⟨callee, receiver, args, hw⟩ := hw
    cases hstep with
    | @code n m f c receiver args hf hargs hdepth => exact ⟨c :: calls, h.body hf hargs hdepth⟩
    | _ => cases hw
  · exact ⟨calls, h.step hstep fun callee receiver args heq => hw ⟨callee, receiver, args, heq⟩⟩

/-- A visit takes place inside another if and only if there are bodies in progress between them. -/
theorem reaches_iff_inside : Reaches v w ↔ ∃ calls, Inside v calls w := by
  constructor
  · intro h
    induction h with
    | refl => exact ⟨[], .here⟩
    | tail _ hstep ih =>
      obtain ⟨calls, hinside⟩ := ih
      rcases hstep with henters | htries
      · exact hinside.enters henters
      · exact ⟨calls, hinside.tries htries⟩
  · rintro ⟨calls, h⟩
    induction h with
    | here => exact .refl
    | body h hf hargs hdepth ih => exact ih.tail (.inl (.code hf hargs hdepth))
    | step h hstep hw ih => exact ih.tail (.inl hstep)
    | tries h hstep ih => exact ih.tail (.inr hstep)

/-- A step that is no body of a function takes place at the same depth. -/
theorem depth_of_placed (h : Placed w x)
    (hw : ∀ callee receiver args, w.task ≠ .call callee receiver args) :
    x.machine.depth = w.machine.depth := by
  unfold Placed at h
  split at h
  · exact h.2
  · next heq => exact absurd heq (hw _ _ _)
  · exact h.2

/-- **The call depth is the number of bodies in progress.** -/
theorem Inside.depth_eq {calls : List Closure} (h : Inside v calls w) :
    w.machine.depth = v.machine.depth + calls.length := by
  induction h with
  | here => rfl
  | @body calls n m f c receiver args h hf hargs hdepth ih =>
    have hm : m.depth = v.machine.depth + calls.length := ih
    show m.depth + 1 = v.machine.depth + (calls.length + 1)
    omega
  | step h hstep hw ih => rw [depth_of_placed (placed_of_enters hstep) hw, ih]
  | tries h hstep ih =>
    cases hstep with
    | body => exact ih

/-- **The call depth is bounded.** -/
theorem Inside.depth_le {calls : List Closure} (h : Inside v calls w)
    (hv : v.machine.depth ≤ maxCallDepth) : w.machine.depth ≤ maxCallDepth := by
  induction h with
  | here => exact hv
  | body h hf hargs hdepth ih => exact hdepth
  | step h hstep hw ih => rwa [depth_of_placed (placed_of_enters hstep) hw]
  | tries h hstep ih =>
    cases hstep with
    | body => exact ih

/-! ## The discipline -/

/-- How a visit inside `v` treats the scope and the call depth. -/
structure Disciplined (v w : Visit) : Prop where
  /-- However the visit ends, both are as they were before it. -/
  scope_restored : (after (w.task.run w.fuel) w.machine).scope = w.machine.scope
  depth_restored : (after (w.task.run w.fuel) w.machine).depth = w.machine.depth
  /-- The depth is the number of function bodies in progress, and bounded. -/
  inside : ∃ calls, Inside v calls w
  depth_counts : ∀ calls, Inside v calls w → w.machine.depth = v.machine.depth + calls.length
  depth_bounded : w.machine.depth ≤ maxCallDepth
  /-- A step takes place where the visit does, unless it is a body. -/
  placed : ∀ x, Enters w x ∨ Tries w x → Placed w x
  /-- A call of a function with the right number of arguments runs the body if and only if the
  depth is not used up.  Otherwise it raises an error and changes nothing. -/
  called : ∀ f c receiver args, w.task = .call (.function f) receiver args →
    w.machine.store.function? f = some (.closure c) → args.length = c.params.length →
    Eval.call (execStmt w.fuel) (.function f) receiver args w.machine =
      if w.machine.depth < maxCallDepth then
        w.machine.leaveCall
          (runAll (execStmt w.fuel) .undefined c.body (w.machine.enterCall c args))
      else .error (.raise (.text EvalError.recursionLimit.message)) w.machine
  /-- If the body of a `try` statement raises a value, from however deep, the handler is the next
  step, and starts in the scope and at the depth of the statement. -/
  recovered : ∀ n a body name handler payload m', w.fuel = n + 1 →
    w.task = .stmt (.tryCatch a body name handler) →
    runInner (execStmt n) .empty body w.machine = .error (.raise payload) m' →
    m'.scope = w.machine.scope ∧ m'.depth = w.machine.depth ∧
      Enters w ⟨n, .body (Dict.empty.insert name payload) handler, m'⟩ ∧
      execStmt (n + 1) (.tryCatch a body name handler) w.machine =
        (runBinding (execStmt n) name handler payload >>= fun flow => pure flow.settle) m'

/-- If the body of a `try` statement raises a value, the statement does what its handler does, from
a machine with the scope and the call depth of the statement. -/
theorem recovers {n : Nat} {body : List (Stmt Unit)} {payload : Value} {m m' : Machine}
    (a : Unit) (name : String) (handler : List (Stmt Unit))
    (hbody : runInner (execStmt n) .empty body m = .error (.raise payload) m') :
    m'.scope = m.scope ∧ m'.depth = m.depth ∧
      execStmt (n + 1) (.tryCatch a body name handler) m =
        (runBinding (execStmt n) name handler payload >>= fun flow => pure flow.settle) m' := by
  have hhalts : Halts ⟨n, .body .empty body, m⟩ (.raise payload) m' := hbody
  have heq : m' = m.withEffects m' := hhalts.eq_withEffects
  obtain ⟨hscope, hdepth⟩ := Task.restores_of_error (t := .body .empty body) hbody
  refine ⟨hscope, hdepth, ?_⟩
  rw [Tries.handles a name handler hhalts, ← heq]

end Visit

open Visit in
/-- **Scopes and call depth.**  Every visit inside another is disciplined, if the call depth was not
exceeded to begin with. -/
theorem scope_and_depth_discipline {v w : Visit} (h : Reaches v w)
    (hv : v.machine.depth ≤ maxCallDepth) : Disciplined v w where
  scope_restored := (w.task.restores w.fuel w.machine).1
  depth_restored := (w.task.restores w.fuel w.machine).2
  inside := reaches_iff_inside.mp h
  depth_counts := fun _ hinside => hinside.depth_eq
  depth_bounded := by
    obtain ⟨calls, hinside⟩ := reaches_iff_inside.mp h
    exact hinside.depth_le hv
  placed := by
    rintro x (henters | htries)
    · exact placed_of_enters henters
    · exact placed_of_tries htries
  called := fun f c receiver args _ hf hargs => call_closure_eq hf hargs
  recovered := by
    obtain ⟨fuel, task, m⟩ := w
    rintro n a body name handler payload m' rfl rfl hbody
    obtain ⟨hscope, hdepth, hhandles⟩ := recovers a name handler hbody
    exact ⟨hscope, hdepth, .handler hbody, hhandles⟩

/-- A function that calls itself, and handles the error of the call that is one too many. -/
def boundedSelf : Closure :=
  ⟨some "f", [], [.tryCatch () [.expr () (.call () (.var () "f") [])] "e" []], ⟨0⟩⟩

/-- A machine in which there is room for one more call. -/
def almostFull : Machine where
  store :=
    { arrays := #[]
      maps := #[]
      functions := #[.closure boundedSelf]
      scopes := #[⟨none, Dict.empty.insert "f" (.function ⟨0⟩)⟩] }
  sink := .unlimited
  scope := ⟨0⟩
  depth := 255

/-- The call uses up the depth, the call inside it raises an error, and the handler runs inside the
first. -/
theorem discipline_of_handler_at_limit :
    ∃ w : Visit, Visit.Reaches ⟨5, .call (.function ⟨0⟩) none [], almostFull⟩ w ∧
      w.task = .body (Dict.empty.insert "e" (.text EvalError.recursionLimit.message)) [] ∧
      w.machine.depth = maxCallDepth ∧
      Visit.Disciplined ⟨5, .call (.function ⟨0⟩) none [], almostFull⟩ w := by
  have hcode : Visit.Enters ⟨5, .call (.function ⟨0⟩) none [], almostFull⟩
      ⟨5, .stmts .undefined boundedSelf.body, almostFull.enterCall boundedSelf []⟩ :=
    .code rfl rfl (by decide)
  have hhandler : Visit.Enters
      ⟨5, .stmt (.tryCatch () [.expr () (.call () (.var () "f") [])] "e" []),
        almostFull.enterCall boundedSelf []⟩
      ⟨4, .body (Dict.empty.insert "e" (.text EvalError.recursionLimit.message)) [],
        after (runInner (execStmt 4) .empty [.expr () (.call () (.var () "f") [])])
          (almostFull.enterCall boundedSelf [])⟩ :=
    .handler rfl
  have hbody : Visit.Reaches _ _ := .single (.inl hcode)
  have hreaches := (hbody.tail (.inl .stmtsHead)).tail (.inl hhandler)
  exact ⟨_, hreaches, rfl, rfl, scope_and_depth_discipline hreaches (by decide)⟩

end Script
