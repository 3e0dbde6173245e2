import Script.Proofs.Eval.Coupling

/-!
# Output is appended to

An evaluation does nothing to its output but append to it, and never beyond the limit.  This is so
at every moment: what the output holds when a visit begins is the beginning of what it holds when
the visit ends, and that is the beginning of what it holds when any visit around it ends.

## Main definitions

* `Sink.Extends`: one output is another one with more text in it.
* `Onward`: the evaluations that only append to their output.

## Main results

* `onward_run`: every task only appends to its output.
* `Visit.Reaches.extends`, `Visit.Reaches.extends_output`: the output at every moment of a visit
  lies between the output before the visit and the output after it.
-/

namespace Script

open Eval Outcome

/-! ## Outputs -/

namespace Sink

variable {s t u : Sink}

/-- The output does not exceed its limit. -/
def Fits (s : Sink) : Prop := ∀ n, s.limit = some n → s.stored.utf8ByteSize ≤ n

/-- The output `t` is `s` with more text behind it, within the same limit. -/
structure Extends (s t : Sink) : Prop where
  limit_eq : t.limit = s.limit
  stored : ∃ more, t.stored = s.stored ++ more
  fits : s.Fits → t.Fits

namespace Extends

theorem refl (s : Sink) : s.Extends s := ⟨rfl, ⟨"", by simp⟩, id⟩

theorem trans (h : s.Extends t) (h' : t.Extends u) : s.Extends u := by
  obtain ⟨more, hmore⟩ := h.stored
  obtain ⟨more', hmore'⟩ := h'.stored
  refine ⟨h'.limit_eq.trans h.limit_eq, ⟨more ++ more', ?_⟩, fun hs => h'.fits (h.fits hs)⟩
  rw [hmore', hmore, String.append_assoc]

end Extends

theorem extends_write (s : Sink) (text : String) : s.Extends (s.write text).2 := by
  unfold write
  split
  · next haccepts =>
    refine ⟨rfl, ⟨text, rfl⟩, fun hs n hn => ?_⟩
    have hfits := hs n hn
    rcases Bool.or_eq_true_iff.mp haccepts with hempty | hroom
    · have htext : text = "" := by simpa using hempty
      simpa [htext] using hfits
    · have hlimit : s.limit = some n := hn
      simpa [accepts, hlimit] using hroom
  · exact .refl s

theorem extends_writeLine (s : Sink) (text : String) : s.Extends (s.writeLine text).2 := by
  have hfirst := s.extends_write text
  unfold writeLine
  rcases hwrite : s.write text with ⟨_ | _, t⟩
  · rw [hwrite] at hfirst
    exact hfirst
  · rw [hwrite] at hfirst
    exact hfirst.trans (t.extends_write "\n")

end Sink

/-! ## Evaluations -/

/-- An evaluation side by side with itself, after its output has been `base`. -/
def appending (base : Sink) : Coupling where
  Inv _ := True
  Own _ := True
  Outputs a b := a = b ∧ base.Extends a
  inv_of_scopes_eq _ _ := trivial
  inv_newScope _ _ _ := trivial
  own_newScope _ _ _ := trivial
  inv_assign _ _ _ _ := trivial
  inv_define _ _ _ _ := trivial
  outputs_writeLine := by
    rintro a _ text ⟨rfl, hextends⟩
    exact ⟨rfl, rfl, hextends.trans (a.extends_writeLine text)⟩

theorem joins_appending (m : Machine) : (appending m.sink).Joins m.scope m m :=
  ⟨trivial, rfl, .refl m.sink⟩

variable {α β : Type} {x : Eval α} {f : α → Eval β} {m : Machine}

/-- An evaluation that only appends to its output. -/
def Onward (x : Eval α) : Prop := ∀ m : Machine, m.sink.Extends (after x m).sink

theorem Onward.of_couples (h : ∀ (C : Coupling) here, (∀ s, C.Own s) → C.Couples here x) :
    Onward x := by
  intro m
  have hrun := h _ _ (fun _ => trivial) (joins_appending m)
  unfold after
  generalize x m = r at hrun
  cases hrun with
  | ok _ hstate | error _ hstate =>
    obtain ⟨-, -, hextends⟩ := hstate
    exact hextends

/-- A primitive step only appends to its output. -/
theorem Onward.of_agrees (h : ∀ (S : Lockstep) here, ¬ S.Frozen → S.Agrees here x) : Onward x :=
  .of_couples fun C here _ => Coupling.couples_of_agrees (h C.lockstep here id)

/-- **Every task only appends to its output.** -/
theorem onward_run (n : Nat) (t : Task) : Onward (t.run n) := by
  refine .of_couples fun C here hown => ?_
  intro m m' hjoins
  have hpermits : C.lockstep.Permits t here := ⟨fun _ _ => trivial, fun _ => hown here⟩
  exact Coupling.related_of_goes (C.lockstep.follows n t hpermits
    (Coupling.joins_lockstep.mpr hjoins))

theorem onward_pure (a : α) : Onward (pure a : Eval α) := fun m => .refl m.sink

theorem onward_stop (s : Stop) : Onward (stop s : Eval α) := fun m => .refl m.sink

theorem onward_define (name : String) (value : Value) : Onward (define name value) :=
  fun m => .refl m.sink

/-- What follows an evaluation goes on from its output. -/
theorem extends_after_bind (hf : ∀ a, Onward (f a)) (x : Eval α) (m : Machine) :
    (after x m).sink.Extends (after (x >>= f) m).sink := by
  cases hx : x m with
  | ok a k =>
    have hrest := hf a k
    rw [after_of_ok hx]
    unfold after at hrest ⊢
    rw [bind_of_ok hx]
    exact hrest
  | error s k =>
    rw [after_of_error hx, after_of_error (bind_of_error hx)]
    exact .refl k.sink

theorem onward_bind (hx : Onward x) (hf : ∀ a, Onward (f a)) : Onward (x >>= f) :=
  fun m => (hx m).trans (extends_after_bind hf x m)

/-- An evaluation that has come to a result goes on from there. -/
theorem extends_after_of_ok {a : α} {k : Machine} {s : Sink} (h : x m = .ok a k)
    (hs : s.Extends (after (f a) k).sink) : s.Extends (after (x >>= f) m).sink := by
  unfold after at hs ⊢
  rw [bind_of_ok h]
  exact hs

theorem sink_after_within (scope : ScopeId) (x : Eval α) (m : Machine) :
    (after (within scope x) m).sink = (after x { m with scope := scope }).sink := by
  unfold after within
  cases x { m with scope := scope } <;> rfl

theorem sink_after_calling (x : Eval α) (m : Machine) :
    (after (calling x) m).sink = (after x { m with depth := m.depth + 1 }).sink := by
  unfold after calling
  cases x { m with depth := m.depth + 1 } <;> rfl

/-! ## Visits -/

namespace Visit

variable {v w : Visit}

/-- The output when a visit ends, however it ends. -/
def output (v : Visit) : Sink := (after (v.task.run v.fuel) v.machine).sink

theorem extends_output (v : Visit) : v.machine.sink.Extends v.output :=
  onward_run v.fuel v.task v.machine

section Outcomes

variable {n : Nat} {t : Task} {m k : Machine}

theorem extends_of_ok {a : t.Result} (h : t.run n m = .ok a k) : m.sink.Extends k.sink := by
  have honward := onward_run n t m
  rwa [after_of_ok h] at honward

theorem extends_of_error {s : Stop} (h : t.run n m = .error s k) : m.sink.Extends k.sink := by
  have honward := onward_run n t m
  rwa [after_of_error h] at honward

end Outcomes

/-- **A visit begins where the visits before it have left the output.** -/
theorem Enters.extends (h : Enters v w) : v.machine.sink.Extends w.machine.sink := by
  cases h with
  | left | operand | assigned | callee | array | map | indexed | owner | exprsHead | entriesHead
  | calleeOwner | placeOwner | placeIndexed | stmtsHead | init | expr | condition | iterated
  | thrown | returned | roundTest | itemBody | calleeValue | block | loop | stmts | code =>
    exact .refl _
  | right h₁ | place h₁ | index h₁ | exprsTail h₁ | entriesTail h₁ | placeIndex h₁ | yes h₁ | no h₁
  | items h₁ | roundBody h₁ => exact extends_of_ok (t := .expr _) h₁
  | args hcallee => exact extends_of_ok (t := .callee _) hcallee
  | call hcallee hargs =>
    have hfirst := extends_of_ok (t := .callee _) hcallee
    exact hfirst.trans (extends_of_ok (t := .exprs _) hargs)
  | stmtsTail hhead => exact extends_of_ok (t := .stmt _) hhead
  | roundNext htest _ hbody =>
    have hfirst := extends_of_ok (t := .expr _) htest
    exact hfirst.trans (extends_of_ok (t := .body _ _) hbody)
  | itemNext hbody => exact extends_of_ok (t := .body _ _) hbody
  | handler hbody => exact extends_of_error (t := .body _ _) hbody

/-- **What a visit leaves in the output stays there.** -/
theorem Enters.extends_output (h : Enters v w) : w.output.Extends v.output := by
  have heval : ∀ n e, Onward (evalExpr n e) := fun n e => onward_run n (.expr e)
  have hbody : ∀ n bindings code, Onward (runInner (execStmt n) bindings code) :=
    fun n bindings code => onward_run n (.body bindings code)
  have hmember : ∀ target name, Onward (readMember target name) := fun target name =>
    .of_agrees fun _ _ _ => Lockstep.agrees_readMember target name
  cases h with
  -- what is evaluated first
  | @left n m a op e e' =>
    refine extends_after_bind (fun l => ?_) (evalExpr n e) m
    cases op.shortcut? l with
    | some v => exact onward_pure _
    | none =>
      refine onward_bind (heval n e') fun r => .of_agrees fun S here _ => ?_
      exact Lockstep.agrees_getStore_bind (fun σ scopes => by rw [σ.apply_withScopes]) fun σ =>
        Lockstep.agrees_ofExcept _
  | @operand n m a op e =>
    exact extends_after_bind (fun l => .of_agrees fun _ _ _ => Lockstep.agrees_ofExcept _)
      (evalExpr n e) m
  | @assigned n m a target e =>
    refine extends_after_bind (fun v => ?_) (evalExpr n e) m
    exact onward_bind (onward_run n (.place v target)) fun _ => onward_pure _
  | @callee n m a e args =>
    refine extends_after_bind (fun f => ?_) (evalCallee (evalExpr n) e) m
    exact onward_bind (onward_run n (.exprs args)) fun vs => onward_run n (.call f.1 f.2 vs)
  | @array n m a es =>
    exact extends_after_bind (fun vs => .of_agrees fun _ _ _ => Lockstep.agrees_newArray _)
      (evalAll (evalExpr n) es) m
  | @map n m a es =>
    exact extends_after_bind (fun vs => .of_agrees fun _ _ _ => Lockstep.agrees_newMap _)
      (evalEntries (evalExpr n) es) m
  | @indexed n m a e key =>
    refine extends_after_bind (fun target => ?_) (evalExpr n e) m
    exact onward_bind (heval n key) fun k => .of_agrees fun _ _ _ => Lockstep.agrees_readIndex _ _
  | @owner n m a e name =>
    exact extends_after_bind (fun target => hmember target name) (evalExpr n e) m
  | @exprsHead n m e es =>
    refine extends_after_bind (fun v => ?_) (evalExpr n e) m
    exact onward_bind (onward_run n (.exprs es)) fun _ => onward_pure _
  | @entriesHead n m key e es =>
    refine extends_after_bind (fun v => ?_) (evalExpr n e) m
    exact onward_bind (onward_run n (.entries es)) fun _ => onward_pure _
  | @calleeOwner n m a e name =>
    refine extends_after_bind (fun target => ?_) (evalExpr n e) m
    exact onward_bind (hmember target name) fun _ => onward_pure _
  | @calleeValue n m e hself =>
    show Sink.Extends _ (after (evalCallee (evalExpr n) e) m).sink
    rw [evalCallee_of_ne_field hself]
    exact extends_after_bind (fun _ => onward_pure _) (evalExpr n e) m
  | @placeOwner n m v a e name =>
    refine extends_after_bind (fun target => ?_) (evalExpr n e) m
    exact .of_agrees fun _ _ hfrozen => Lockstep.agrees_writeField hfrozen _ _ _
  | @placeIndexed n m v a e key =>
    refine extends_after_bind (fun target => onward_bind (heval n key) fun k => ?_) (evalExpr n e) m
    exact .of_agrees fun _ _ hfrozen => Lockstep.agrees_writeIndex hfrozen _ _ _
  | @stmtsHead n m last s body =>
    refine extends_after_bind (fun flow => ?_) (execStmt n s) m
    cases flow with
    | next v => exact onward_run n (.stmts v body)
    | ret _ | brk | cont => exact onward_pure _
  | @init n m a name e =>
    refine extends_after_bind (fun v => onward_bind ?_ fun _ => onward_pure _) (evalExpr n e) m
    exact onward_define name v
  | @expr n m a e => exact extends_after_bind (fun _ => onward_pure _) (evalExpr n e) m
  | @condition n m a e yes no =>
    refine extends_after_bind (fun v => ?_) (evalExpr n e) m
    split
    · exact onward_bind (hbody n _ yes) fun _ => onward_pure _
    · cases no with
      | some no => exact onward_bind (hbody n _ no) fun _ => onward_pure _
      | none => exact onward_pure _
  | @iterated n m a name e body =>
    refine extends_after_bind (fun v => ?_) (evalExpr n e) m
    refine onward_bind (fun k => .refl _) fun σ => ?_
    exact onward_bind (.of_agrees fun _ _ _ => Lockstep.agrees_ofExcept _) fun vs =>
      onward_run n (.items name body vs)
  | @thrown n m a e => exact extends_after_bind (fun _ => onward_stop _) (evalExpr n e) m
  | @returned n m a e => exact extends_after_bind (fun _ => onward_pure _) (evalExpr n e) m
  | @roundTest n m e body k =>
    refine extends_after_bind (fun v => ?_) (evalExpr n e) m
    split
    · refine onward_bind (hbody n _ body) fun flow => ?_
      cases flow with
      | next _ | cont => exact onward_run n (.rounds e body k)
      | ret _ | brk => exact onward_pure _
    · exact onward_pure _
  | @itemBody n m name body v vs =>
    refine extends_after_bind (fun flow => ?_) (runBinding (execStmt n) name body v) m
    cases flow with
    | next _ | cont => exact onward_run n (.items name body vs)
    | ret _ | brk => exact onward_pure _
  -- what is evaluated after something else
  | @right n m m' a op e e' v hleft hop =>
    refine extends_after_of_ok hleft ?_
    rw [hop]
    refine extends_after_bind (fun r => .of_agrees fun S here _ => ?_) (evalExpr n e') m'
    exact Lockstep.agrees_getStore_bind (fun σ scopes => by rw [σ.apply_withScopes]) fun σ =>
      Lockstep.agrees_ofExcept _
  | @place n m m' a target e v hvalue =>
    refine extends_after_of_ok hvalue ?_
    exact extends_after_bind (fun _ => onward_pure _) (assignTo (evalExpr n) v target) m'
  | @args n m m' a e args f hcallee =>
    refine extends_after_of_ok hcallee ?_
    exact extends_after_bind (fun vs => onward_run n (.call f.1 f.2 vs)) (evalAll (evalExpr n) args)
      m'
  | call hcallee hargs => exact extends_after_of_ok hcallee (extends_after_of_ok hargs (.refl _))
  | @index n m m' a e key v hcontainer =>
    refine extends_after_of_ok hcontainer ?_
    exact extends_after_bind (fun k => .of_agrees fun _ _ _ => Lockstep.agrees_readIndex _ _)
      (evalExpr n key) m'
  | @exprsTail n m m' e es v hhead =>
    refine extends_after_of_ok hhead ?_
    exact extends_after_bind (fun _ => onward_pure _) (evalAll (evalExpr n) es) m'
  | @entriesTail n m m' key e es v hhead =>
    refine extends_after_of_ok hhead ?_
    exact extends_after_bind (fun _ => onward_pure _) (evalEntries (evalExpr n) es) m'
  | @placeIndex n m m' v a e key u hcontainer =>
    refine extends_after_of_ok hcontainer (extends_after_bind (fun k => ?_) (evalExpr n key) m')
    exact .of_agrees fun _ _ hfrozen => Lockstep.agrees_writeIndex hfrozen _ _ _
  | stmtsTail hhead => exact extends_after_of_ok hhead (.refl _)
  | @yes n m m' a e yes no v hcondition hv =>
    refine extends_after_of_ok hcondition ?_
    rw [if_pos hv]
    exact extends_after_bind (fun _ => onward_pure _) (runInner (execStmt n) .empty yes) m'
  | @no n m m' a e yes no v hcondition hv =>
    refine extends_after_of_ok hcondition ?_
    rw [hv]
    exact extends_after_bind (fun _ => onward_pure _) (runInner (execStmt n) .empty no) m'
  | @items n m m' a name e body v vs he hvs =>
    have hstore : getStore m' = .ok m'.store m' := rfl
    have hitems : ofExcept (m'.store.items v) m' = .ok vs m' := by
      rw [hvs]
      rfl
    exact extends_after_of_ok he (extends_after_of_ok hstore (extends_after_of_ok hitems (.refl _)))
  | @handler n m m' a body name handler v hraise =>
    have hcatch : after (catching (runInner (execStmt n) .empty body)
        (runBinding (execStmt n) name handler)) m =
          after (runBinding (execStmt n) name handler v) m' := by
      unfold after catching
      rw [hraise]
    show Sink.Extends (after (runBinding (execStmt n) name handler v) m').sink _
    rw [← hcatch]
    exact extends_after_bind (fun _ => onward_pure _) _ m
  | @roundBody n m m' e body k v htest hv =>
    refine extends_after_of_ok htest ?_
    rw [if_pos hv]
    refine extends_after_bind (fun flow => ?_) (runInner (execStmt n) .empty body) m'
    cases flow with
    | next _ | cont => exact onward_run n (.rounds e body k)
    | ret _ | brk => exact onward_pure _
  | @roundNext n m m' m'' e body k v flow htest hv hround hflow =>
    refine extends_after_of_ok htest ?_
    rw [if_pos hv]
    refine extends_after_of_ok hround ?_
    cases flow with
    | next _ | cont => exact .refl _
    | ret _ | brk => cases hflow
  | @itemNext n m m' name body v vs flow hround hflow =>
    refine extends_after_of_ok hround ?_
    cases flow with
    | next _ | cont => exact .refl _
    | ret _ | brk => cases hflow
  -- what has a machine of its own
  | block | loop => exact .refl _
  | @stmts n m bindings body =>
    show Sink.Extends _ (after (within _ (runAll (execStmt n) .undefined body)) _).sink
    rw [sink_after_within]
    exact .refl _
  | @code n m f c receiver args hf hargs hdepth =>
    have hstore : getStore m = .ok m.store m := rfl
    have hcount : getDepth m = .ok m.depth m := rfl
    refine extends_after_of_ok hstore ?_
    rw [hf]
    show Sink.Extends _ (after (callClosure (execStmt n) c args) m).sink
    unfold callClosure
    rw [if_neg (fun hne => hne hargs)]
    refine extends_after_of_ok hcount ?_
    rw [if_neg (Nat.not_le.mpr hdepth)]
    refine extends_after_of_ok (k := { m with store := (m.enterCall c args).store }) rfl ?_
    refine Sink.Extends.trans ?_ (extends_after_bind (fun flow => ?_) _ _)
    · unfold runBody
      rw [sink_after_calling, sink_after_within]
      exact .refl _
    · cases flow with
      | next _ | ret _ => exact onward_pure _
      | brk | cont => exact onward_stop _

/-- The body of a `try` statement leaves its output to the handler, or to what follows. -/
theorem Tries.extends_output (h : Tries v w) : w.output.Extends v.output := by
  cases h with
  | @body n m a body name handler =>
    refine Sink.Extends.trans ?_ (extends_after_bind (fun _ => onward_pure _) _ m)
    show Sink.Extends (after (runInner (execStmt n) .empty body) m).sink _
    unfold after catching
    cases runInner (execStmt n) .empty body m with
    | ok flow k => exact .refl _
    | error s k =>
      cases s with
      | raise payload => exact onward_run n (.body _ handler) k
      | exit _ | fault _ | outOfFuel => exact .refl _

/-- **The output at a moment of a visit** is that before the visit with more text in it. -/
theorem Reaches.extends (h : Reaches v w) : v.machine.sink.Extends w.machine.sink := by
  induction h with
  | refl => exact .refl _
  | tail _ hstep ih =>
    rcases hstep with henters | htries
    · exact ih.trans henters.extends
    · cases htries
      exact ih

/-- **The output after a visit** is that after any visit on its way with more text in it. -/
theorem Reaches.extends_output (h : Reaches v w) : w.output.Extends v.output := by
  induction h using Relation.ReflTransGen.head_induction_on with
  | refl => exact .refl _
  | head hstep _ ih =>
    rcases hstep with henters | htries
    · exact ih.trans henters.extends_output
    · exact ih.trans htries.extends_output

end Visit

end Script
