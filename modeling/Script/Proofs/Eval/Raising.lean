import Script.Proofs.Eval.CallDepth
import Script.Proofs.Eval.Lockstep

/-!
# Where a raised value comes from

A visit that ends with a raised value was handed it by a visit inside of it, or it raised it by
itself.  By itself, a `throw` statement raises the value that it was given, a call whose function is
left by a `break` or a `continue` complains about that, and everything else raises an error of some
other kind.  No visit enters visits without end, so every raised value comes from one of these.

## Main definitions

* `EvalError.misplaced`: the complaints about jumps that have nothing to leave.
* `EvalError.concernsPlace`: the errors of an assignment to a place.
* `Eval.Raises`: the evaluations that raise errors of a given sort only.
* `Visit.Originates`: a visit raises a value by itself.

## Main results

* `EvalError.message_ne_of_misplaced`: these complaints have wordings that no other error has.
* `Visit.raises_of_place`: what an assignment to a place can raise.
* `Visit.Halts.explains`: a raised value was handed over, or raised by the visit itself.
* `Visit.acc_enters`: no visit enters visits without end.
* `Visit.Halts.exists_originates`: every raised value has an origin.
-/

namespace Script

open Eval Outcome

/-! ## Complaints about jumps -/

namespace EvalError

/-- The complaints about jumps that have nothing to leave. -/
def misplaced : EvalError → Bool
  | returnOutside | breakOutside | continueOutside | loopControlInFunction => true
  | _ => false

/-- The errors of an assignment to a place. -/
def concernsPlace : EvalError → Bool
  | undefinedVariable _ | noFields _ _ | notIndexable _ _ | outOfBounds _ _ => true
  | _ => false

theorem not_misplaced_of_concernsPlace {e : EvalError} (h : e.concernsPlace = true) :
    e.misplaced = false := by
  cases e with
  | undefinedVariable | noFields | notIndexable | outOfBounds => rfl
  | _ => cases h

/-- Whether a text begins in another way than the complaints about jumps do. -/
def beginsElse (text : String) : Bool := text.toList.head?.any fun c => c != '\'' && c != 'L'

theorem beginsElse_append {s : String} (h : beginsElse s = true) (t : String) :
    beginsElse (s ++ t) = true := by
  unfold beginsElse at h ⊢
  rw [String.toList_append]
  cases hs : s.toList with
  | nil => simp [hs] at h
  | cons c cs => simpa [hs] using h

theorem beginsElse_of_misplaced {e : EvalError} (h : e.misplaced = true) :
    beginsElse e.message = false := by
  cases e with
  | returnOutside | breakOutside | continueOutside | loopControlInFunction => decide
  | _ => cases h

/-- How the errors end that begin with the name of a method. -/
def methodEndings : List String :=
  " must be called on a value" ::
    ["undefined", "boolean", "number", "string", "array", "map", "function", "nothing"].map
      (" cannot be called on " ++ ·)

theorem not_suffix_of_misplaced {e : EvalError} (h : e.misplaced = true) :
    ∀ ending ∈ methodEndings, ¬ ending.toList <:+ e.message.toList := by
  cases e with
  | returnOutside | breakOutside | continueOutside | loopControlInFunction => decide
  | _ => cases h

/-- Every other error begins or ends in a way of its own. -/
theorem wording_of_not_misplaced {e : EvalError} (h : e.misplaced = false) :
    beginsElse e.message = true ∨
      ∃ method, ∃ ending ∈ methodEndings, e.message = method ++ ending := by
  cases e with
  | returnOutside | breakOutside | continueOutside | loopControlInFunction => cases h
  | noReceiver method => exact .inr ⟨method, _, .head _, rfl⟩
  | wrongReceiver method found =>
    refine .inr ⟨method, _, ?_, String.append_assoc⟩
    cases found with
    | none => decide
    | some kind => cases kind <;> decide
  | incomparable => exact .inl (by decide)
  | notANumber | notCallable | notIterable | printFailed =>
    exact .inl (beginsElse_append (by decide) _)
  | undefinedVariable | recursionLimit =>
    exact .inl (beginsElse_append (beginsElse_append (by decide) _) _)
  | noFields | notIndexable | outOfBounds | argumentCount =>
    exact .inl (beginsElse_append (beginsElse_append (beginsElse_append (by decide) _) _) _)
  | parameterCount function expected got =>
    have hbegin : beginsElse ("Function " ++ function) = true := beginsElse_append (by decide) _
    exact .inl (beginsElse_append (beginsElse_append (beginsElse_append
      (beginsElse_append hbegin _) _) _) _)
  | noMember found name =>
    have hfound : beginsElse found.name = true := by cases found <;> decide
    exact .inl (beginsElse_append (beginsElse_append (beginsElse_append hfound _) _) _)

/-- **The complaints about jumps have wordings of their own.** -/
theorem message_ne_of_misplaced {e e' : EvalError} (he : e.misplaced = true)
    (he' : e'.misplaced = false) :
    e'.message ≠ e.message := by
  intro heq
  rcases wording_of_not_misplaced he' with hbegin | ⟨method, ending, hmem, hmessage⟩
  · rw [heq, beginsElse_of_misplaced he] at hbegin
    cases hbegin
  · refine not_suffix_of_misplaced he ending hmem ?_
    rw [← heq, hmessage, String.toList_append]
    exact List.suffix_append _ _

end EvalError

namespace Eval

variable {α β : Type} {sort : EvalError → Bool}

/-- What an evaluation raises is an error of the given sort. -/
def Raises (sort : EvalError → Bool) (x : Eval α) : Prop :=
  ∀ m payload m', x m = .error (.raise payload) m' →
    ∃ e : EvalError, sort e = true ∧ payload = .text e.message

theorem raises_of_ne {x : Eval α} (h : ∀ m payload m', x m ≠ .error (.raise payload) m') :
    Raises sort x :=
  fun m payload m' hrun => absurd hrun (h m payload m')

theorem raises_raise {e : EvalError} (he : sort e = true) : Raises sort (raise e : Eval α) := by
  intro m payload m' h
  cases h
  exact ⟨e, he, rfl⟩

theorem raises_pure (a : α) : Raises sort (pure a : Eval α) :=
  raises_of_ne (by simp)

theorem raises_stop {s : Stop} (hs : ∀ payload, s ≠ .raise payload) :
    Raises sort (stop s : Eval α) := by
  intro m payload m' h
  cases h
  exact absurd rfl (hs payload)

theorem raises_modifyStore (f : Store → Store) : Raises sort (modifyStore f) :=
  raises_of_ne (by simp [modifyStore])

theorem raises_ofExcept {r : Except EvalError α} (hr : ∀ e, r = .error e → sort e = true) :
    Raises sort (ofExcept r) := by
  cases r with
  | ok a => exact raises_pure a
  | error e => exact raises_raise (hr e rfl)

theorem raises_bind {x : Eval α} {f : α → Eval β} (hx : Raises sort x)
    (hf : ∀ a, Raises sort (f a)) : Raises sort (x >>= f) := by
  intro m payload m' h
  rcases error_of_bind h with hfirst | ⟨a, k, -, hsecond⟩
  · exact hx m payload m' hfirst
  · exact hf a k payload m' hsecond

theorem raises_getStore_bind {f : Store → Eval β} (hf : ∀ σ, Raises sort (f σ)) :
    Raises sort (getStore >>= f) :=
  raises_bind (raises_of_ne (by simp [getStore])) hf

theorem Raises.mono {sort' : EvalError → Bool} {x : Eval α} (h : Raises sort x)
    (hsort : ∀ e, sort e = true → sort' e = true) : Raises sort' x := by
  intro m payload m' hrun
  obtain ⟨e, he, hpayload⟩ := h m payload m' hrun
  exact ⟨e, hsort e he, hpayload⟩

/-! ### Places -/

theorem raises_lookup (name : String) : Raises EvalError.concernsPlace (lookup name) := by
  intro m payload m' h
  unfold lookup at h
  split at h
  · cases h
  · exact raises_raise rfl _ _ _ h

theorem raises_assign (name : String) (value : Value) :
    Raises EvalError.concernsPlace (assign name value) := by
  intro m payload m' h
  unfold assign at h
  split at h
  · cases h
  · exact raises_raise rfl _ _ _ h

theorem raises_checkIndex (x : Float) (length : Nat) :
    Raises EvalError.concernsPlace (ofExcept (checkIndex x length)) := by
  unfold checkIndex
  split
  · split
    · exact raises_pure _
    · exact raises_raise rfl
  · exact raises_raise rfl

theorem raises_readIndex (container key : Value) :
    Raises EvalError.concernsPlace (readIndex container key) := by
  unfold readIndex
  refine raises_getStore_bind fun σ => ?_
  split
  · refine raises_bind (raises_checkIndex _ _) fun i => ?_
    split
    · exact raises_pure _
    · exact raises_stop (by simp)
  · refine raises_bind (raises_checkIndex _ _) fun i => ?_
    split
    · exact raises_pure _
    · exact raises_stop (by simp)
  · exact raises_pure _
  · exact raises_raise rfl

theorem raises_writeIndex (container key value : Value) :
    Raises EvalError.concernsPlace (writeIndex container key value) := by
  unfold writeIndex
  split
  · refine raises_getStore_bind fun σ => raises_bind (raises_checkIndex _ _) fun i => ?_
    split
    · exact raises_modifyStore _
    · exact raises_stop (by simp)
  · exact raises_modifyStore _
  · exact raises_raise rfl

theorem raises_writeField (container : Value) (name : String) (value : Value) :
    Raises EvalError.concernsPlace (writeField container name value) := by
  unfold writeField
  split
  · exact raises_modifyStore _
  · exact raises_raise rfl

/-- The errors that are no complaints about jumps. -/
abbrev Plain (x : Eval α) : Prop := Raises (fun e => !e.misplaced) x

theorem Raises.plain {x : Eval α} (h : Raises EvalError.concernsPlace x) : Plain x :=
  h.mono fun _ he => by rw [EvalError.not_misplaced_of_concernsPlace he]; rfl

/-! ### Operators -/

/-- A bind of results fails only if one of its steps does. -/
theorem not_misplaced_bind {x : Except EvalError α} {f : α → Except EvalError β}
    (hx : ∀ e, x = .error e → (!e.misplaced) = true)
    (hf : ∀ a e, f a = .error e → (!e.misplaced) = true) :
    ∀ e, (x >>= f) = .error e → (!e.misplaced) = true := by
  intro e h
  cases x with
  | ok a => exact hf a e h
  | error e' =>
    cases h
    exact hx _ rfl

theorem not_misplaced_of_toNumber (v : Value) :
    ∀ e, v.toNumber = .error e → (!e.misplaced) = true := by
  intro e h
  cases v with
  | number => cases h
  | _ =>
    cases h
    rfl

theorem not_misplaced_of_arithmetic (f : Float → Float → Float) (left right : Value) :
    ∀ e, left.arithmetic f right = .error e → (!e.misplaced) = true :=
  not_misplaced_bind (not_misplaced_of_toNumber left) fun _ =>
    not_misplaced_bind (not_misplaced_of_toNumber right) fun _ => by simp

theorem not_misplaced_of_comparison (test : Ordering → Bool) (left right : Value) :
    ∀ e, left.comparison test right = .error e → (!e.misplaced) = true := by
  refine not_misplaced_bind ?_ fun _ => by simp
  intro e h
  unfold Value.order at h
  split at h
  · cases h
  · refine not_misplaced_bind (not_misplaced_of_toNumber left) (fun x =>
      not_misplaced_bind (not_misplaced_of_toNumber right) fun y e h => ?_) e h
    split at h
    · cases h
    · cases h
      rfl

theorem not_misplaced_of_apply {σ : Store} {op : BinaryOp} {left right : Value} :
    ∀ e, op.apply σ left right = .error e → (!e.misplaced) = true := by
  cases op with
  | add =>
    intro e h
    unfold BinaryOp.apply at h
    simp only at h
    split at h
    · cases h
    · exact not_misplaced_of_arithmetic _ left right e h
  | sub | mul | div | mod => exact not_misplaced_of_arithmetic _ left right
  | equal | notEqual | and | or => exact fun e h => by cases h
  | less | lessEqual | greater | greaterEqual => exact not_misplaced_of_comparison _ left right

theorem not_misplaced_of_unary {op : UnaryOp} {v : Value} :
    ∀ e, op.apply v = .error e → (!e.misplaced) = true := by
  cases op with
  | negate => exact not_misplaced_bind (not_misplaced_of_toNumber v) fun _ => by simp
  | not => exact fun e h => by cases h

theorem not_misplaced_of_items {σ : Store} {v : Value} :
    ∀ e, σ.items v = .error e → (!e.misplaced) = true := by
  intro e h
  cases v with
  | array | text | map => cases h
  | _ =>
    cases h
    rfl

/-! ### Members and native functions -/

theorem plain_readMember (target : Value) (name : String) : Plain (readMember target name) := by
  have hmethod : Plain (readMethod target name) := by
    unfold readMethod
    split
    · exact raises_of_ne (by simp [newFunction])
    · split
      · exact raises_pure _
      · exact raises_raise rfl
  unfold readMember
  refine raises_getStore_bind fun σ => ?_
  split
  · split
    · exact raises_pure _
    · exact hmethod
  · exact hmethod

theorem plain_printLine (text : String) : Plain (printLine text) := by
  intro m payload m' h
  unfold printLine at h
  split at h
  · cases h
  · exact raises_raise rfl _ _ _ h

theorem plain_native_run (n : Native) (receiver : Option Value) (args : List Value) :
    Plain (n.run receiver args) := by
  cases n with
  | println =>
    exact raises_getStore_bind fun σ => raises_bind (plain_printLine _) fun _ => raises_pure _
  | exit =>
    simp only [Native.run, Native.runExit]
    split
    · exact raises_stop (by simp)
    · exact raises_bind (raises_ofExcept (not_misplaced_of_toNumber _)) fun x =>
        raises_stop (by simp)
  | length =>
    simp only [Native.run, Native.runLength]
    refine raises_getStore_bind fun σ => ?_
    split
    · exact raises_pure _
    · exact raises_pure _
    · exact raises_pure _
    · exact raises_raise rfl
  | push =>
    simp only [Native.run, Native.runPush]
    split
    · split
      · exact raises_stop (by simp)
      · exact raises_bind (raises_modifyStore _) fun _ =>
          raises_getStore_bind fun σ => raises_pure _
    · exact raises_raise rfl
  | pop =>
    simp only [Native.run, Native.runPop]
    split
    · exact raises_getStore_bind fun σ =>
        raises_bind (raises_modifyStore _) fun _ => raises_pure _
    · exact raises_raise rfl
  | upper =>
    simp only [Native.run, Native.runUpper]
    split
    · exact raises_pure _
    · exact raises_raise rfl
  | lower =>
    simp only [Native.run, Native.runLower]
    split
    · exact raises_pure _
    · exact raises_raise rfl
  | keys =>
    simp only [Native.run, Native.runKeys]
    split
    · exact raises_getStore_bind fun σ => raises_of_ne (by simp [newArray])
    · exact raises_raise rfl
  | has =>
    simp only [Native.run, Native.runHas]
    split
    · exact raises_stop (by simp)
    · split
      · exact raises_getStore_bind fun σ => raises_pure _
      · exact raises_pure _
      · exact raises_raise rfl

theorem plain_native_call (n : Native) (receiver : Option Value) (args : List Value) :
    Plain (n.call receiver args) := by
  have harity : Plain (ofExcept (checkArity n.minArgs n.maxArgs args.length)) := by
    unfold checkArity
    split
    · exact raises_pure _
    · exact raises_raise rfl
  unfold Native.call
  split
  · exact raises_raise rfl
  · exact raises_bind harity fun _ => plain_native_run n receiver args

end Eval

/-! ## Origins -/

namespace Visit

/-- The visit raises the value by itself. -/
inductive Originates : Visit → Value → Prop
  /-- A `throw` statement raises what it was given. -/
  | thrown {n a e m m' v} (h : evalExpr n e m = .ok v m') :
      Originates ⟨n + 1, .stmt (.throw a e), m⟩ v
  /-- A call complains if a loop control leaves the body of the function. -/
  | left {n f c receiver args m flow m'} (hf : m.store.function? f = some (.closure c))
      (hbody : runAll (execStmt n) .undefined c.body (m.enterCall c args) = .ok flow m')
      (hflow : flow = .brk ∨ flow = .cont) :
      Originates ⟨n, .call (.function f) receiver args, m⟩
        (.text EvalError.loopControlInFunction.message)
  /-- Any visit may raise an error of another kind. -/
  | error {v : Visit} {e : EvalError} (he : e.misplaced = false) : Originates v (.text e.message)

variable {v : Visit} {n : Nat} {m m' : Machine} {payload : Value}

/-- Where a visit has a value from that it raises: from a visit that it enters, or from itself. -/
def Explains (v : Visit) (payload : Value) : Prop :=
  (∃ w k, Enters v w ∧ w.Halts (.raise payload) k) ∨ v.Originates payload

theorem Explains.enters {w : Visit} {k : Machine} (h : Enters v w)
    (hw : w.Halts (.raise payload) k) : v.Explains payload :=
  .inl ⟨w, k, h, hw⟩

theorem Explains.of_plain {α : Type} {x : Eval α} (hx : Plain x)
    (h : x m = .error (.raise payload) m') : v.Explains payload := by
  obtain ⟨e, he, rfl⟩ := hx m payload m' h
  exact .inr (.error (by simpa using he))

/-- **What an assignment to a place can raise**: what a part of the place raises, or an error that
is not about the form of the place. -/
theorem raises_of_place {value : Value} {target : Target Unit}
    (h : Halts ⟨n, .place value target, m⟩ (.raise payload) m') :
    (∃ u m'', Enters ⟨n, .place value target, m⟩ u ∧ u.Halts (.raise payload) m'') ∨
      ∃ e : EvalError, e.concernsPlace = true ∧ payload = .text e.message := by
  have hrun : assignTo (evalExpr n) value target m = .error (.raise payload) m' := h
  cases target with
  | var a name => exact .inr (raises_assign name value _ _ _ hrun)
  | field a container name =>
    rcases error_of_bind hrun with howner | ⟨v, k, -, hwrite⟩
    · exact .inl ⟨_, m', .placeOwner, howner⟩
    · exact .inr (raises_writeField v name value _ _ _ hwrite)
  | index a container key =>
    rcases error_of_bind hrun with hcontainer | ⟨v, k, hcontainer, hrest⟩
    · exact .inl ⟨_, m', .placeIndexed, hcontainer⟩
    · rcases error_of_bind hrest with hkey | ⟨i, k', -, hwrite⟩
      · exact .inl ⟨_, m', .placeIndex hcontainer, hkey⟩
      · exact .inr (raises_writeIndex v i value _ _ _ hwrite)

/-! ### One lemma for each kind of task -/

theorem explains_expr {e : Expr Unit} (h : Halts ⟨n, .expr e, m⟩ (.raise payload) m') :
    Explains ⟨n, .expr e, m⟩ payload := by
  cases n with
  | zero => cases h
  | succ n =>
    cases e with
    | number | text | boolean | undefined | lambda => cases h
    | var a name => exact .of_plain (raises_lookup name).plain h
    | binary a op e e' =>
      rcases error_of_bind h with hleft | ⟨l, k, hleft, hrest⟩
      · exact .enters .left hleft
      · cases hop : op.shortcut? l with
        | some v =>
          rw [hop] at hrest
          cases hrest
        | none =>
          rw [hop] at hrest
          rcases error_of_bind hrest with hright | ⟨r, k', hright, happly⟩
          · exact .enters (.right hleft hop) hright
          · exact .of_plain (raises_getStore_bind fun σ =>
              raises_ofExcept not_misplaced_of_apply) happly
    | unary a op e =>
      rcases error_of_bind h with hoperand | ⟨v, k, hoperand, happly⟩
      · exact .enters .operand hoperand
      · exact .of_plain (raises_ofExcept not_misplaced_of_unary) happly
    | assign a target e =>
      rcases error_of_bind h with hvalue | ⟨v, k, hvalue, hrest⟩
      · exact .enters .assigned hvalue
      · rcases error_of_bind hrest with hplace | ⟨_, k', _, hpure⟩
        · exact .enters (.place hvalue) hplace
        · cases hpure
    | call a e args =>
      rcases error_of_bind h with hcallee | ⟨p, k, hcallee, hrest⟩
      · exact .enters .callee hcallee
      · rcases error_of_bind hrest with hargs | ⟨vs, k', hargs, hcall⟩
        · exact .enters (.args hcallee) hargs
        · exact .enters (.call hcallee hargs) hcall
    | array a es =>
      rcases error_of_bind h with hitems | ⟨vs, k, _, hnew⟩
      · exact .enters .array hitems
      · cases hnew
    | map a es =>
      rcases error_of_bind h with hentries | ⟨vs, k, _, hnew⟩
      · exact .enters .map hentries
      · cases hnew
    | index a e key =>
      rcases error_of_bind h with hcontainer | ⟨v, k, hcontainer, hrest⟩
      · exact .enters .indexed hcontainer
      · rcases error_of_bind hrest with hkey | ⟨u, k', hkey, hread⟩
        · exact .enters (.index hcontainer) hkey
        · exact .of_plain (raises_readIndex _ _).plain hread
    | field a e name =>
      rcases error_of_bind h with howner | ⟨v, k, _, hread⟩
      · exact .enters .owner howner
      · exact .of_plain (plain_readMember _ _) hread

theorem explains_exprs {es : List (Expr Unit)} (h : Halts ⟨n, .exprs es, m⟩ (.raise payload) m') :
    Explains ⟨n, .exprs es, m⟩ payload := by
  cases es with
  | nil => cases h
  | cons e es =>
    rcases error_of_bind h with hhead | ⟨v, k, hhead, hrest⟩
    · exact .enters .exprsHead hhead
    · rcases error_of_bind hrest with htail | ⟨vs, k', _, hpure⟩
      · exact .enters (.exprsTail hhead) htail
      · cases hpure

theorem explains_entries {es : List (String × Expr Unit)}
    (h : Halts ⟨n, .entries es, m⟩ (.raise payload) m') : Explains ⟨n, .entries es, m⟩ payload := by
  cases es with
  | nil => cases h
  | cons e es =>
    rcases error_of_bind h with hhead | ⟨v, k, hhead, hrest⟩
    · exact .enters .entriesHead hhead
    · rcases error_of_bind hrest with htail | ⟨vs, k', _, hpure⟩
      · exact .enters (.entriesTail hhead) htail
      · cases hpure

theorem explains_callee {e : Expr Unit} (h : Halts ⟨n, .callee e, m⟩ (.raise payload) m') :
    Explains ⟨n, .callee e, m⟩ payload := by
  by_cases hfield : ∃ a e' name, e = .field a e' name
  · obtain ⟨a, e', name, rfl⟩ := hfield
    rcases error_of_bind h with howner | ⟨v, k, _, hrest⟩
    · exact .enters .calleeOwner howner
    · rcases error_of_bind hrest with hread | ⟨f, k', _, hpure⟩
      · exact .of_plain (plain_readMember _ _) hread
      · cases hpure
  · have hself : ∀ a e' name, e ≠ .field a e' name := fun a e' name heq =>
      hfield ⟨a, e', name, heq⟩
    have hrun : evalCallee (evalExpr n) e m = .error (.raise payload) m' := h
    rw [evalCallee_of_ne_field hself] at hrun
    rcases error_of_bind hrun with hvalue | ⟨f, k, _, hpure⟩
    · exact .enters (.calleeValue hself) hvalue
    · cases hpure

theorem explains_place {value : Value} {target : Target Unit}
    (h : Halts ⟨n, .place value target, m⟩ (.raise payload) m') :
    Explains ⟨n, .place value target, m⟩ payload := by
  rcases raises_of_place h with hentered | ⟨e, he, rfl⟩
  · exact .inl hentered
  · exact .inr (.error (EvalError.not_misplaced_of_concernsPlace he))

/-- A call of a function is the one visit that complains about jumps. -/
theorem explains_closure {f : FunctionId} {c : Closure} {receiver : Option Value}
    {args : List Value} (hf : m.store.function? f = some (.closure c))
    (h : Eval.call (execStmt n) (.function f) receiver args m = .error (.raise payload) m') :
    Explains ⟨n, .call (.function f) receiver args, m⟩ payload := by
  by_cases hargs : args.length = c.params.length
  · rw [call_closure_eq hf hargs] at h
    by_cases hdepth : m.depth < maxCallDepth
    · rw [if_pos hdepth] at h
      cases hbody : runAll (execStmt n) .undefined c.body (m.enterCall c args) with
      | ok flow k =>
        rw [hbody] at h
        cases flow with
        | next | ret => cases h
        | brk =>
          cases h
          exact .inr (.left hf hbody (.inl rfl))
        | cont =>
          cases h
          exact .inr (.left hf hbody (.inr rfl))
      | error stop k =>
        rw [hbody] at h
        cases h
        exact .enters (.code hf hargs hdepth) hbody
    · rw [if_neg hdepth] at h
      exact .of_plain (raises_raise (α := Value) rfl) h
  · rw [call_of_closure hf] at h
    unfold callClosure at h
    rw [if_pos hargs] at h
    exact .of_plain (raises_raise (α := Value) rfl) h

theorem explains_call {callee : Value} {receiver : Option Value} {args : List Value}
    (h : Halts ⟨n, .call callee receiver args, m⟩ (.raise payload) m') :
    Explains ⟨n, .call callee receiver args, m⟩ payload := by
  cases callee with
  | function f =>
    have hrun : Eval.call (execStmt n) (.function f) receiver args m =
        .error (.raise payload) m' := h
    cases hf : m.store.function? f with
    | none =>
      rw [call_of_none hf] at hrun
      cases hrun
    | some object =>
      cases object with
      | native native =>
        rw [call_of_native hf] at hrun
        exact .of_plain (plain_native_call native receiver args) hrun
      | closure c => exact explains_closure hf hrun
  | _ => exact .of_plain (raises_raise rfl) h

theorem explains_stmts {last : Value} {code : List (Stmt Unit)}
    (h : Halts ⟨n, .stmts last code, m⟩ (.raise payload) m') :
    Explains ⟨n, .stmts last code, m⟩ payload := by
  cases code with
  | nil => cases h
  | cons s code =>
    rcases error_of_bind h with hhead | ⟨flow, k, hhead, hrest⟩
    · exact .enters .stmtsHead hhead
    · cases flow with
      | next v => exact .enters (.stmtsTail hhead) hrest
      | ret | brk | cont => cases hrest

theorem explains_body {bindings : Dict Value} {code : List (Stmt Unit)}
    (h : Halts ⟨n, .body bindings code, m⟩ (.raise payload) m') :
    Explains ⟨n, .body bindings code, m⟩ payload := by
  rcases error_of_bind h with hscope | ⟨scope, k, hscope, hrun⟩
  · cases hscope
  · cases hscope
    unfold runBody within at hrun
    split at hrun
    · cases hrun
    · next stop k hbody =>
      cases hrun
      exact .enters .stmts hbody

theorem explains_rounds {condition : Expr Unit} {code : List (Stmt Unit)} {left : Nat}
    (h : Halts ⟨n, .rounds condition code left, m⟩ (.raise payload) m') :
    Explains ⟨n, .rounds condition code left, m⟩ payload := by
  cases left with
  | zero => cases h
  | succ left =>
    rcases error_of_bind h with htest | ⟨v, k, htest, hrest⟩
    · exact .enters .roundTest htest
    · cases hv : v.truthy with
      | false =>
        rw [hv] at hrest
        cases hrest
      | true =>
        rw [hv] at hrest
        rcases error_of_bind hrest with hbody | ⟨flow, k', hbody, hnext⟩
        · exact .enters (.roundBody htest hv) hbody
        · cases flow with
          | next | cont => exact .enters (.roundNext htest hv hbody rfl) hnext
          | ret | brk => cases hnext

theorem explains_items {name : String} {code : List (Stmt Unit)} {left : List Value}
    (h : Halts ⟨n, .items name code left, m⟩ (.raise payload) m') :
    Explains ⟨n, .items name code left, m⟩ payload := by
  cases left with
  | nil => cases h
  | cons v left =>
    rcases error_of_bind h with hbody | ⟨flow, k, hbody, hnext⟩
    · exact .enters .itemBody hbody
    · cases flow with
      | next | cont => exact .enters (.itemNext hbody rfl) hnext
      | ret | brk => cases hnext

theorem explains_stmt {s : Stmt Unit} (h : Halts ⟨n, .stmt s, m⟩ (.raise payload) m') :
    Explains ⟨n, .stmt s, m⟩ payload := by
  cases n with
  | zero => cases h
  | succ n =>
    cases s with
    | letVar a name init =>
      rcases error_of_bind h with hvalue | ⟨v, k, _, hdefine⟩
      · cases init with
        | none => cases hvalue
        | some e => exact .enters .init hvalue
      · cases hdefine
    | function | brk | cont => cases h
    | expr a e =>
      rcases error_of_bind h with hvalue | ⟨v, k, _, hpure⟩
      · exact .enters .expr hvalue
      · cases hpure
    | block a body => exact .enters .block h
    | ifElse a condition yes no =>
      rcases error_of_bind h with hcondition | ⟨v, k, hcondition, hrest⟩
      · exact .enters .condition hcondition
      · cases hv : v.truthy with
        | true =>
          rw [hv] at hrest
          rcases error_of_bind hrest with hbody | ⟨flow, k', _, hpure⟩
          · exact .enters (.yes hcondition hv) hbody
          · cases hpure
        | false =>
          rw [hv] at hrest
          cases no with
          | none => cases hrest
          | some no =>
            rcases error_of_bind hrest with hbody | ⟨flow, k', _, hpure⟩
            · exact .enters (.no hcondition hv) hbody
            · cases hpure
    | whileLoop a condition body => exact .enters .loop h
    | forEach a name items body =>
      rcases error_of_bind h with hitems | ⟨v, k, hitems, hrest⟩
      · exact .enters .iterated hitems
      · have hloop : (ofExcept (k.store.items v) >>=
            forLoop (runBinding (execStmt n) name body)) k = .error (.raise payload) m' := hrest
        rcases error_of_bind hloop with hraise | ⟨vs, k', hvs, hrun⟩
        · exact .of_plain (raises_ofExcept not_misplaced_of_items) hraise
        · cases hok : k.store.items v with
          | error e =>
            rw [hok] at hvs
            cases hvs
          | ok us =>
            rw [hok] at hvs
            cases hvs
            exact .enters (.items hitems hok) hrun
    | tryCatch a body name handler =>
      rcases error_of_bind h with hcatch | ⟨flow, k, _, hpure⟩
      · unfold catching at hcatch
        split at hcatch
        · next caught k hbody => exact .enters (.handler hbody) hcatch
        · next hnone => exact absurd hcatch (hnone payload m')
      · cases hpure
    | throw a e =>
      rcases error_of_bind h with hvalue | ⟨v, k, hvalue, hstop⟩
      · exact .enters .thrown hvalue
      · cases hstop
        exact .inr (.thrown hvalue)
    | ret a e =>
      rcases error_of_bind h with hvalue | ⟨v, k, _, hpure⟩
      · cases e with
        | none => cases hvalue
        | some e => exact .enters .returned hvalue
      · cases hpure

/-- **A raised value was handed over by a visit inside, or raised by the visit itself.** -/
theorem Halts.explains (h : v.Halts (.raise payload) m') : v.Explains payload := by
  obtain ⟨n, task, m⟩ := v
  cases task with
  | expr => exact explains_expr h
  | exprs => exact explains_exprs h
  | entries => exact explains_entries h
  | callee => exact explains_callee h
  | place => exact explains_place h
  | call => exact explains_call h
  | stmt => exact explains_stmt h
  | stmts => exact explains_stmts h
  | body => exact explains_body h
  | rounds => exact explains_rounds h
  | items => exact explains_items h

/-! ### The way to the origin -/

/-- Visits with fuel `n` enter no visits without end, if those with less fuel do not.  Expressions
and statements use up fuel, lists and loops get shorter, and the others lead to one of these. -/
theorem acc_enters_of_lt (ih : ∀ k < n, ∀ t m, Acc (fun w v => Enters v w) ⟨k, t, m⟩) (t : Task)
    (m : Machine) : Acc (fun w v => Enters v w) ⟨n, t, m⟩ := by
  have hexpr : ∀ e m, Acc (fun w v => Enters v w) ⟨n, .expr e, m⟩ := fun e m =>
    ⟨_, fun w h => by cases h <;> exact ih _ (Nat.lt_succ_self _) _ _⟩
  have hstmt : ∀ s m, Acc (fun w v => Enters v w) ⟨n, .stmt s, m⟩ := fun s m =>
    ⟨_, fun w h => by cases h <;> exact ih _ (Nat.lt_succ_self _) _ _⟩
  have hstmts : ∀ code last m, Acc (fun w v => Enters v w) ⟨n, .stmts last code, m⟩ := by
    intro code
    induction code with
    | nil => exact fun last m => ⟨_, fun w h => by cases h⟩
    | cons s code ihcode =>
      refine fun last m => ⟨_, fun w h => ?_⟩
      cases h with
      | stmtsHead => exact hstmt s m
      | stmtsTail => exact ihcode _ _
  have hbody : ∀ bindings code m, Acc (fun w v => Enters v w) ⟨n, .body bindings code, m⟩ := by
    refine fun bindings code m => ⟨_, fun w h => ?_⟩
    cases h with
    | stmts => exact hstmts code _ _
  cases t with
  | expr e => exact hexpr e m
  | stmt s => exact hstmt s m
  | stmts last code => exact hstmts code last m
  | body bindings code => exact hbody bindings code m
  | exprs es =>
    induction es generalizing m with
    | nil => exact ⟨_, fun w h => by cases h⟩
    | cons e es ihes =>
      refine ⟨_, fun w h => ?_⟩
      cases h with
      | exprsHead => exact hexpr e m
      | exprsTail => exact ihes _
  | entries es =>
    induction es generalizing m with
    | nil => exact ⟨_, fun w h => by cases h⟩
    | cons e es ihes =>
      refine ⟨_, fun w h => ?_⟩
      cases h with
      | entriesHead => exact hexpr _ m
      | entriesTail => exact ihes _
  | callee e | place value target => exact ⟨_, fun w h => by cases h <;> exact hexpr _ _⟩
  | call f receiver args =>
    refine ⟨_, fun w h => ?_⟩
    cases h with
    | code => exact hstmts _ _ _
  | rounds condition code left =>
    induction left generalizing m with
    | zero => exact ⟨_, fun w h => by cases h⟩
    | succ left ihleft =>
      refine ⟨_, fun w h => ?_⟩
      cases h with
      | roundTest => exact hexpr condition m
      | roundBody => exact hbody _ code _
      | roundNext => exact ihleft _
  | items name code left =>
    induction left generalizing m with
    | nil => exact ⟨_, fun w h => by cases h⟩
    | cons v left ihleft =>
      refine ⟨_, fun w h => ?_⟩
      cases h with
      | itemBody => exact hbody _ code _
      | itemNext => exact ihleft _

/-- **No visit enters visits without end.** -/
theorem acc_enters (v : Visit) : Acc (fun w v => Enters v w) v := by
  obtain ⟨n, t, m⟩ := v
  induction n using Nat.strongRecOn generalizing t m with
  | ind n ih => exact acc_enters_of_lt ih t m

/-- **Every raised value has an origin** in the visit, on a way into no body of a `try`
statement. -/
theorem Halts.exists_originates (h : v.Halts (.raise payload) m') :
    ∃ w, Leads v w ∧ w.Originates payload := by
  induction acc_enters v generalizing m' with
  | intro v _ ih =>
    rcases h.explains with ⟨w, k, hvw, hw⟩ | horigin
    · obtain ⟨u, hwu, hu⟩ := ih w hvw hw
      exact ⟨u, .head hvw hwu, hu⟩
    · exact ⟨v, .refl, horigin⟩

end Visit

end Script
