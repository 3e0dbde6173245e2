import Script.Eval.Stmt
import Script.Proofs.Outcome

/-!
# Every name is that of an object

A value names an object of the store, and a store is closed if it has every object that the values
in it name.  Evaluation keeps a store closed: new objects are put behind the old ones, none is
removed, and a value comes from a literal, from the store, or from the object that was just made.

So no access fails that the checks before it rule out.  A native function has the arguments that it
needs, an index within the length of a container finds an item, and a function value names a
function object.

## Main definitions

* `Store.Has`, `Store.Closed`: the objects of a store, and stores that have all of them.
* `Store.Grows`: stores whose objects are still there later.
* `Eval.Safe`: the outcomes that keep a store closed and are no faults.

## Main results

* `safe_eval_exec`: the outcome of every expression and every statement.
* `safe_evaluate`: the outcome of a statement at the top level.
-/

namespace Script

open Eval Outcome

/-! ## Dictionaries -/

namespace Dict

variable {α : Type} {d : Dict α} {key : String} {value : α} {e : String × α}

theorem mem_write {entries : List (String × α)} (h : e ∈ write key value entries) :
    e = (key, value) ∨ e ∈ entries := by
  induction entries with
  | nil => exact .inl (List.mem_singleton.mp h)
  | cons e' rest ih =>
    unfold write at h
    split at h
    · next heq =>
      rcases List.mem_cons.mp h with h | h
      · exact .inl (heq ▸ h)
      · exact .inr (.tail _ h)
    · rcases List.mem_cons.mp h with h | h
      · exact .inr (h ▸ .head _)
      · exact (ih h).imp_right (.tail _)

theorem mem_insert (h : e ∈ (d.insert key value).entries) : e = (key, value) ∨ e ∈ d.entries :=
  mem_write h

theorem mem_insertAll {writes : List (String × α)} (h : e ∈ (d.insertAll writes).entries) :
    e ∈ writes ∨ e ∈ d.entries := by
  induction writes generalizing d with
  | nil => exact .inr h
  | cons w writes ih =>
    rcases ih h with h | h
    · exact .inl (.tail _ h)
    · rcases mem_insert h with rfl | h
      · exact .inl (.head _)
      · exact .inr h

end Dict

/-! ## Closed stores -/

namespace Store

variable {σ τ υ : Store} {v : Value}

/-- The store has the object that a value names, if it names one. -/
def Has (σ : Store) : Value → Prop
  | .array a => a.index < σ.arrays.size
  | .map m => m.index < σ.maps.size
  | .function f => f.index < σ.functions.size
  | .undefined | .boolean _ | .number _ | .text _ => True

/-- A value is an item of an array, an entry of a map, or bound to a name. -/
inductive Holds (σ : Store) : Value → Prop
  | item {items v} (hitems : items ∈ σ.arrays) (hv : v ∈ items) : Holds σ v
  | entry {entries key v} (hentries : entries ∈ σ.maps) (hv : (key, v) ∈ entries.entries) :
      Holds σ v
  | binding {scope name v} (hscope : scope ∈ σ.scopes) (hv : (name, v) ∈ scope.bindings.entries) :
      Holds σ v

/-- A store that has every object that its values name. -/
def Closed (σ : Store) : Prop := ∀ v, σ.Holds v → σ.Has v

/-- The objects of `σ` are also objects of `τ`. -/
structure Grows (σ τ : Store) : Prop where
  arrays : σ.arrays.size ≤ τ.arrays.size
  maps : σ.maps.size ≤ τ.maps.size
  functions : σ.functions.size ≤ τ.functions.size

theorem Grows.refl (σ : Store) : σ.Grows σ := ⟨Nat.le_refl _, Nat.le_refl _, Nat.le_refl _⟩

theorem Grows.trans (h : σ.Grows τ) (h' : τ.Grows υ) : σ.Grows υ :=
  ⟨Nat.le_trans h.arrays h'.arrays, Nat.le_trans h.maps h'.maps,
    Nat.le_trans h.functions h'.functions⟩

theorem Has.mono (h : σ.Has v) (hgrows : σ.Grows τ) : τ.Has v := by
  cases v with
  | array a => exact Nat.lt_of_lt_of_le h hgrows.arrays
  | map m => exact Nat.lt_of_lt_of_le h hgrows.maps
  | function f => exact Nat.lt_of_lt_of_le h hgrows.functions
  | undefined | boolean | number | text => trivial

/-- A store stays closed if it grows, and if the values that it holds are old or known. -/
theorem Closed.of_holds (h : σ.Closed) (hgrows : σ.Grows τ)
    (hholds : ∀ v, τ.Holds v → σ.Holds v ∨ τ.Has v) : τ.Closed := by
  intro v hv
  rcases hholds v hv with hold | hhas
  · exact (h v hold).mono hgrows
  · exact hhas

/-! ### Reading -/

theorem Closed.has_item (h : σ.Closed) {a : ArrayId} (hv : v ∈ σ.array a) : σ.Has v := by
  refine h v ?_
  unfold array at hv
  rw [Array.getD_eq_getD_getElem?] at hv
  cases hitems : σ.arrays[a.index]? with
  | none => simp [hitems] at hv
  | some items =>
    rw [hitems] at hv
    exact .item (Array.mem_of_getElem? hitems) hv

theorem Closed.has_entry (h : σ.Closed) {m : MapId} {key : String}
    (hv : (σ.map m).get? key = some v) : σ.Has v := by
  refine h v ?_
  have hmem := Dict.mem_of_get? hv
  unfold map at hmem
  rw [Array.getD_eq_getD_getElem?] at hmem
  cases hentries : σ.maps[m.index]? with
  | none => simp [hentries, Dict.empty] at hmem
  | some entries =>
    rw [hentries] at hmem
    exact .entry (Array.mem_of_getElem? hentries) hmem

theorem Closed.has_lookup (h : σ.Closed) {s : ScopeId} {name : String}
    (hv : σ.lookup s name = some v) : σ.Has v := by
  refine h v ?_
  unfold lookup at hv
  split at hv
  · cases hv
  · next owner howner =>
    have hmem := Dict.mem_of_get? hv
    unfold bindings at hmem
    split at hmem
    · next scope hscope => exact .binding (Array.mem_of_getElem? hscope) hmem
    · cases hmem

/-! ### Writing -/

theorem grows_newArray (items : Array Value) : σ.Grows (σ.newArray items).2 := by
  refine ⟨?_, Nat.le_refl _, Nat.le_refl _⟩
  simp [newArray]

theorem Closed.newArray (h : σ.Closed) {items : Array Value} (hitems : ∀ v ∈ items, σ.Has v) :
    (σ.newArray items).2.Closed := by
  refine h.of_holds (grows_newArray items) fun v hv => ?_
  cases hv with
  | @item items' _ hmem hv =>
    rcases Array.mem_push.mp hmem with hold | rfl
    · exact .inl (.item hold hv)
    · exact .inr ((hitems v hv).mono (grows_newArray _))
  | entry hmem hv => exact .inl (.entry hmem hv)
  | binding hmem hv => exact .inl (.binding hmem hv)

theorem grows_newMap (entries : Dict Value) : σ.Grows (σ.newMap entries).2 := by
  refine ⟨Nat.le_refl _, ?_, Nat.le_refl _⟩
  simp [newMap]

theorem Closed.newMap (h : σ.Closed) {entries : Dict Value}
    (hentries : ∀ e ∈ entries.entries, σ.Has e.2) : (σ.newMap entries).2.Closed := by
  refine h.of_holds (grows_newMap entries) fun v hv => ?_
  cases hv with
  | item hmem hv => exact .inl (.item hmem hv)
  | @entry entries' key _ hmem hv =>
    rcases Array.mem_push.mp hmem with hold | rfl
    · exact .inl (.entry hold hv)
    · exact .inr ((hentries (key, v) hv).mono (grows_newMap _))
  | binding hmem hv => exact .inl (.binding hmem hv)

theorem grows_newFunction (f : Function) : σ.Grows (σ.newFunction f).2 := by
  refine ⟨Nat.le_refl _, Nat.le_refl _, ?_⟩
  simp [newFunction]

theorem Closed.newFunction (h : σ.Closed) (f : Function) : (σ.newFunction f).2.Closed := by
  refine h.of_holds (grows_newFunction f) fun v hv => .inl ?_
  cases hv with
  | item hmem hv => exact .item hmem hv
  | entry hmem hv => exact .entry hmem hv
  | binding hmem hv => exact .binding hmem hv

theorem grows_of_scopes (scopes : Array Scope) : σ.Grows { σ with scopes := scopes } :=
  ⟨Nat.le_refl _, Nat.le_refl _, Nat.le_refl _⟩

theorem Closed.newScope (h : σ.Closed) (outer : Option ScopeId) {bindings : Dict Value}
    (hbindings : ∀ e ∈ bindings.entries, σ.Has e.2) : (σ.newScope outer bindings).2.Closed := by
  refine h.of_holds (grows_of_scopes _) fun v hv => ?_
  cases hv with
  | item hmem hv => exact .inl (.item hmem hv)
  | entry hmem hv => exact .inl (.entry hmem hv)
  | @binding scope name _ hmem hv =>
    rcases Array.mem_push.mp hmem with hold | rfl
    · exact .inl (.binding hold hv)
    · exact .inr ((hbindings (name, v) hv).mono (grows_of_scopes _))

/-- The items of a modified array of arrays are old ones, or the modified one. -/
theorem mem_modify {α : Type} {xs : Array α} {i : Nat} {f : α → α} {y : α}
    (h : y ∈ xs.modify i f) : y ∈ xs ∨ ∃ x ∈ xs, y = f x := by
  obtain ⟨j, hj, rfl⟩ := Array.getElem_of_mem h
  rw [Array.size_modify] at hj
  rw [Array.getElem_modify]
  split
  · exact .inr ⟨xs[j], Array.getElem_mem hj, rfl⟩
  · exact .inl (Array.getElem_mem hj)

theorem Closed.define (h : σ.Closed) (s : ScopeId) (name : String) (hv : σ.Has v) :
    (σ.define s name v).Closed := by
  refine h.of_holds (grows_of_scopes _) fun w hw => ?_
  cases hw with
  | item hmem hw => exact .inl (.item hmem hw)
  | entry hmem hw => exact .inl (.entry hmem hw)
  | binding hmem hw =>
    have hmem : _ ∈ σ.scopes.modify s.index fun scope =>
        { scope with bindings := scope.bindings.insert name v } := hmem
    rcases mem_modify hmem with hold | ⟨scope, hold, rfl⟩
    · exact .inl (.binding hold hw)
    · rcases Dict.mem_insert hw with heq | hw
      · cases heq
        exact .inr (hv.mono (grows_of_scopes _))
      · exact .inl (.binding hold hw)

theorem grows_modifyArray (a : ArrayId) (f : Array Value → Array Value) :
    σ.Grows (σ.modifyArray a f) := by
  refine ⟨?_, Nat.le_refl _, Nat.le_refl _⟩
  simp [modifyArray]

theorem Closed.modifyArray (h : σ.Closed) (a : ArrayId) {f : Array Value → Array Value}
    (hf : ∀ items, ∀ w ∈ f items, w ∈ items ∨ σ.Has w) : (σ.modifyArray a f).Closed := by
  refine h.of_holds (grows_modifyArray a f) fun w hw => ?_
  cases hw with
  | item hmem hw =>
    have hmem : _ ∈ σ.arrays.modify a.index f := hmem
    rcases mem_modify hmem with hold | ⟨items, hold, rfl⟩
    · exact .inl (.item hold hw)
    · rcases hf items w hw with hw | hw
      · exact .inl (.item hold hw)
      · exact .inr (hw.mono (grows_modifyArray a f))
  | entry hmem hw => exact .inl (.entry hmem hw)
  | binding hmem hw => exact .inl (.binding hmem hw)

theorem grows_modifyMap (m : MapId) (f : Dict Value → Dict Value) :
    σ.Grows (σ.modifyMap m f) := by
  refine ⟨Nat.le_refl _, ?_, Nat.le_refl _⟩
  simp [modifyMap]

theorem Closed.insertEntry (h : σ.Closed) (m : MapId) (key : String) (hv : σ.Has v) :
    (σ.modifyMap m fun d => d.insert key v).Closed := by
  refine h.of_holds (grows_modifyMap m _) fun w hw => ?_
  cases hw with
  | item hmem hw => exact .inl (.item hmem hw)
  | entry hmem hw =>
    have hmem : _ ∈ σ.maps.modify m.index fun d => d.insert key v := hmem
    rcases mem_modify hmem with hold | ⟨entries, hold, rfl⟩
    · exact .inl (.entry hold hw)
    · rcases Dict.mem_insert hw with heq | hw
      · cases heq
        exact .inr (hv.mono (grows_modifyMap m _))
      · exact .inl (.entry hold hw)
  | binding hmem hw => exact .inl (.binding hmem hw)

end Store

/-! ## Safe outcomes -/

/-- The values of a stop are those of objects, and the stop is no fault. -/
def Store.Allows (σ : Store) : Stop → Prop
  | .raise payload => σ.Has payload
  | .fault _ => False
  | .exit _ | .outOfFuel => True

/-- The value of a completion names an object. -/
def Store.Completes (σ : Store) : Completion → Prop
  | .next v | .ret v => σ.Has v
  | .brk | .cont => True

namespace Eval

variable {α β : Type} {σ : Store} {m : Machine} {P : Store → α → Prop} {Q : Store → β → Prop}

/-- The outcome of an evaluation that started from the store `σ`: the store has grown and is closed,
and a result satisfies `P`. -/
inductive Safe (P : Store → α → Prop) (σ : Store) : EStateM.Result Stop Machine α → Prop
  | ok {a m} (hclosed : m.store.Closed) (hgrows : σ.Grows m.store) (ha : P m.store a) :
      Safe P σ (.ok a m)
  | error {stop m} (hclosed : m.store.Closed) (hgrows : σ.Grows m.store)
      (hstop : m.store.Allows stop) : Safe P σ (.error stop m)

theorem safe_pure (hm : m.store.Closed) {a : α} (ha : P m.store a) :
    Safe P m.store ((pure a : Eval α) m) := .ok hm (.refl _) ha

theorem safe_stop (hm : m.store.Closed) {s : Stop} (hs : m.store.Allows s) :
    Safe P m.store ((stop s : Eval α) m) := .error hm (.refl _) hs

theorem safe_raise (hm : m.store.Closed) (e : EvalError) :
    Safe P m.store ((raise e : Eval α) m) := safe_stop hm trivial

/-- **Sequence.**  The second step starts from a closed store, and may rely on the first result. -/
theorem safe_bind {x : Eval α} {f : α → Eval β} (hx : Safe P m.store (x m))
    (hf : ∀ a m', x m = .ok a m' → m'.store.Closed → m.store.Grows m'.store → P m'.store a →
      Safe Q m'.store (f a m')) : Safe Q m.store ((x >>= f) m) := by
  generalize hr : x m = r at hx
  cases hx with
  | @ok a m' hclosed hgrows ha =>
    rw [bind_of_ok hr]
    have hrest := hf a m' hr hclosed hgrows ha
    generalize f a m' = r' at hrest
    cases hrest with
    | ok hclosed' hgrows' hb => exact .ok hclosed' (hgrows.trans hgrows') hb
    | error hclosed' hgrows' hstop => exact .error hclosed' (hgrows.trans hgrows') hstop
  | error hclosed hgrows hstop =>
    rw [bind_of_error hr]
    exact .error hclosed hgrows hstop

/-- What follows a look at the store may rely on what it is. -/
theorem safe_getStore_bind {f : Store → Eval β} (hf : Safe Q m.store (f m.store m)) :
    Safe Q m.store ((getStore >>= f) m) := hf

theorem safe_ofExcept (hm : m.store.Closed) {r : Except EvalError α}
    (hr : ∀ a, r = .ok a → P m.store a) : Safe P m.store (ofExcept r m) := by
  cases r with
  | ok a => exact safe_pure hm (hr a rfl)
  | error e => exact safe_raise hm e

/-- What follows a check may rely on its result, and on the machine being the same. -/
theorem safe_ofExcept_bind (hm : m.store.Closed) {r : Except EvalError α} {f : α → Eval β}
    (hf : ∀ a, r = .ok a → Safe Q m.store (f a m)) :
    Safe Q m.store ((ofExcept r >>= f) m) := by
  cases r with
  | ok a => exact hf a rfl
  | error e => exact safe_raise hm e

/-! ### Primitive steps -/

theorem safe_newArray (hm : m.store.Closed) {items : Array Value}
    (hitems : ∀ v ∈ items, m.store.Has v) : Safe Store.Has m.store (newArray items m) := by
  refine .ok (hm.newArray hitems) (Store.grows_newArray items) ?_
  show m.store.arrays.size < (m.store.arrays.push items).size
  simp

theorem safe_newMap (hm : m.store.Closed) {entries : Dict Value}
    (hentries : ∀ e ∈ entries.entries, m.store.Has e.2) :
    Safe Store.Has m.store (newMap entries m) := by
  refine .ok (hm.newMap hentries) (Store.grows_newMap entries) ?_
  show m.store.maps.size < (m.store.maps.push entries).size
  simp

theorem safe_newFunction (hm : m.store.Closed) (f : Function) :
    Safe Store.Has m.store (newFunction f m) := by
  refine .ok (hm.newFunction f) (Store.grows_newFunction f) ?_
  show m.store.functions.size < (m.store.functions.push f).size
  simp

theorem safe_newClosure (hm : m.store.Closed) (name : Option String) (params : List String)
    (body : List (Stmt Unit)) : Safe Store.Has m.store (newClosure name params body m) :=
  safe_newFunction hm _

theorem safe_newScope (hm : m.store.Closed) (outer : ScopeId) {bindings : Dict Value}
    (hbindings : ∀ e ∈ bindings.entries, m.store.Has e.2) :
    Safe (fun _ _ => True) m.store (newScope outer bindings m) :=
  .ok (hm.newScope (some outer) hbindings) (Store.grows_of_scopes _) trivial

theorem safe_define (hm : m.store.Closed) (name : String) {v : Value} (hv : m.store.Has v) :
    Safe (fun _ _ => True) m.store (define name v m) :=
  .ok (hm.define m.scope name hv) (Store.grows_of_scopes _) trivial

theorem safe_lookup (hm : m.store.Closed) (name : String) :
    Safe Store.Has m.store (lookup name m) := by
  unfold lookup
  split
  · next v hv => exact .ok hm (.refl _) (hm.has_lookup hv)
  · exact safe_raise hm _

theorem safe_assign (hm : m.store.Closed) (name : String) {v : Value} (hv : m.store.Has v) :
    Safe (fun _ _ => True) m.store (assign name v m) := by
  unfold assign Store.assign
  cases m.store.resolve? m.scope name with
  | none => exact safe_raise hm _
  | some owner => exact .ok (hm.define owner name hv) (Store.grows_of_scopes _) trivial

theorem safe_printLine (hm : m.store.Closed) (text : String) :
    Safe (fun _ _ => True) m.store (printLine text m) := by
  unfold printLine
  split
  · exact .ok hm (.refl _) trivial
  · exact .error hm (.refl _) trivial

/-- Changing the scope or the call depth for a while changes no store. -/
theorem safe_within {x : Eval α} (scope : ScopeId)
    (hx : Safe P m.store (x { m with scope := scope })) : Safe P m.store (within scope x m) := by
  unfold within
  generalize x { m with scope := scope } = r at hx
  cases hx with
  | ok hclosed hgrows ha => exact .ok hclosed hgrows ha
  | error hclosed hgrows hstop => exact .error hclosed hgrows hstop

theorem safe_calling {x : Eval α} (hx : Safe P m.store (x { m with depth := m.depth + 1 })) :
    Safe P m.store (calling x m) := by
  unfold calling
  generalize x { m with depth := m.depth + 1 } = r at hx
  cases hx with
  | ok hclosed hgrows ha => exact .ok hclosed hgrows ha
  | error hclosed hgrows hstop => exact .error hclosed hgrows hstop

theorem safe_catching {x : Eval α} {handler : Value → Eval α} (hx : Safe P m.store (x m))
    (hhandler : ∀ payload m', m'.store.Closed → m'.store.Has payload →
      Safe P m'.store (handler payload m')) : Safe P m.store (catching x handler m) := by
  unfold catching
  generalize x m = r at hx
  cases hx with
  | ok hclosed hgrows ha => exact .ok hclosed hgrows ha
  | @error stop m' hclosed hgrows hstop =>
    cases stop with
    | raise payload =>
      have hrest := hhandler payload m' hclosed hstop
      show Safe P m.store (handler payload m')
      generalize handler payload m' = r' at hrest
      cases hrest with
      | ok hclosed' hgrows' ha => exact .ok hclosed' (hgrows.trans hgrows') ha
      | error hclosed' hgrows' hstop' => exact .error hclosed' (hgrows.trans hgrows') hstop'
    | exit | outOfFuel => exact .error hclosed hgrows trivial
    | fault => exact hstop.elim

/-! ### Access and native functions -/

theorem lt_of_checkIndex {x : Float} {length i : Nat} (h : checkIndex x length = .ok i) :
    i < length := by
  unfold checkIndex at h
  split at h
  · split at h
    · next hlt =>
      cases h
      exact hlt
    · cases h
  · cases h

theorem safe_readIndex (hm : m.store.Closed) (container key : Value) :
    Safe Store.Has m.store (readIndex container key m) := by
  unfold readIndex
  refine safe_getStore_bind ?_
  split
  · refine safe_ofExcept_bind hm fun i hi => ?_
    rw [Array.getElem?_eq_getElem (lt_of_checkIndex hi)]
    exact safe_pure hm (hm.has_item (Array.getElem_mem _))
  · next s x =>
    refine safe_ofExcept_bind hm fun i hi => ?_
    have hlt : i < s.toList.length := by
      rw [String.length_toList]
      exact lt_of_checkIndex hi
    rw [List.getElem?_eq_getElem hlt]
    exact safe_pure hm trivial
  · next d k =>
    refine safe_pure hm ?_
    cases hv : (m.store.map d).get? k with
    | none => trivial
    | some v => exact hm.has_entry hv
  · exact safe_raise hm _

theorem safe_modifyArray (hm : m.store.Closed) (a : ArrayId) {f : Array Value → Array Value}
    (hf : ∀ items, ∀ w ∈ f items, w ∈ items ∨ m.store.Has w) :
    Safe (fun _ _ => True) m.store (modifyStore (fun σ => σ.modifyArray a f) m) :=
  .ok (hm.modifyArray a hf) (Store.grows_modifyArray a f) trivial

theorem safe_insertEntry (hm : m.store.Closed) (d : MapId) (key : String) {v : Value}
    (hv : m.store.Has v) : Safe (fun _ _ => True) m.store
      (modifyStore (fun σ => σ.modifyMap d fun entries => entries.insert key v) m) :=
  .ok (hm.insertEntry d key hv) (Store.grows_modifyMap d _) trivial

theorem safe_writeIndex (hm : m.store.Closed) (container key : Value) {v : Value}
    (hv : m.store.Has v) : Safe (fun _ _ => True) m.store (writeIndex container key v m) := by
  unfold writeIndex
  split
  · refine safe_getStore_bind (safe_ofExcept_bind hm fun i hi => ?_)
    rw [if_pos (lt_of_checkIndex hi)]
    refine safe_modifyArray hm _ fun items w hw => ?_
    rcases Array.mem_or_eq_of_mem_setIfInBounds hw with hw | rfl
    · exact .inl hw
    · exact .inr hv
  · exact safe_insertEntry hm _ _ hv
  · exact safe_raise hm _

theorem safe_writeField (hm : m.store.Closed) (container : Value) (name : String) {v : Value}
    (hv : m.store.Has v) : Safe (fun _ _ => True) m.store (writeField container name v m) := by
  unfold writeField
  split
  · exact safe_insertEntry hm _ _ hv
  · exact safe_raise hm _

theorem safe_readMethod (hm : m.store.Closed) (target : Value) (name : String) :
    Safe Store.Has m.store (readMethod target name m) := by
  unfold readMethod
  cases Native.method? target.kind name with
  | some method => exact safe_newFunction hm _
  | none =>
    cases target with
    | map d => exact safe_pure hm trivial
    | undefined | boolean | number | text | array | function => exact safe_raise hm _

theorem safe_readMember (hm : m.store.Closed) (target : Value) (name : String) :
    Safe Store.Has m.store (readMember target name m) := by
  unfold readMember
  refine safe_getStore_bind ?_
  cases target with
  | map d =>
    cases hv : (m.store.map d).get? name with
    | some v =>
      simp only [hv]
      exact safe_pure hm (hm.has_entry hv)
    | none =>
      simp only [hv]
      exact safe_readMethod hm _ _
  | undefined | boolean | number | text | array | function => exact safe_readMethod hm _ _

theorem safe_mismatch (hm : m.store.Closed) (n : Native) (receiver : Option Value) :
    Safe Store.Has m.store (n.mismatch receiver m) := safe_raise hm _

theorem safe_native_run (hm : m.store.Closed) (n : Native) (receiver : Option Value)
    {args : List Value} (hargs : ∀ v ∈ args, m.store.Has v) (hleast : n.minArgs ≤ args.length) :
    Safe Store.Has m.store (n.run receiver args m) := by
  cases n with
  | println =>
    refine safe_getStore_bind ?_
    exact safe_bind (safe_printLine hm _) fun _ _ _ hm' _ _ => safe_pure hm' trivial
  | exit =>
    simp only [Native.run, Native.runExit]
    split
    · exact safe_stop hm trivial
    · exact safe_ofExcept_bind hm fun _ _ => safe_stop hm trivial
  | length =>
    simp only [Native.run, Native.runLength]
    refine safe_getStore_bind ?_
    split
    · exact safe_pure hm trivial
    · exact safe_pure hm trivial
    · exact safe_pure hm trivial
    · exact safe_mismatch hm _ _
  | push =>
    simp only [Native.run, Native.runPush]
    split
    · split
      · exact absurd hleast (by decide)
      · next item rest =>
        refine safe_bind (safe_modifyArray hm _ fun items w hw => ?_) fun _ _ _ hm' _ _ => ?_
        · rcases Array.mem_push.mp hw with hw | rfl
          · exact .inl hw
          · exact .inr (hargs _ (.head _))
        · exact safe_getStore_bind (safe_pure hm' trivial)
    · exact safe_mismatch hm _ _
  | pop =>
    simp only [Native.run, Native.runPop]
    split
    · next a =>
      refine safe_getStore_bind ?_
      -- the value that is taken off is an item of the array as it was
      have hlast : m.store.Has ((m.store.array a).back?.getD .undefined) := by
        cases hback : (m.store.array a).back? with
        | none => trivial
        | some v => exact hm.has_item (Array.mem_of_back? hback)
      refine safe_bind (safe_modifyArray hm _ fun items w hw => .inl ?_)
        fun _ _ _ hm' hgrows _ => safe_pure hm' (hlast.mono hgrows)
      rw [← Array.mem_toList_iff, Array.toList_pop] at hw
      exact Array.mem_toList_iff.mp ((List.dropLast_sublist _).subset hw)
    · exact safe_mismatch hm _ _
  | upper =>
    simp only [Native.run, Native.runUpper]
    split
    · exact safe_pure hm trivial
    · exact safe_mismatch hm _ _
  | lower =>
    simp only [Native.run, Native.runLower]
    split
    · exact safe_pure hm trivial
    · exact safe_mismatch hm _ _
  | keys =>
    simp only [Native.run, Native.runKeys]
    split
    · refine safe_getStore_bind (safe_newArray hm fun v hv => ?_)
      simp only [List.mem_toArray, List.mem_map] at hv
      obtain ⟨key, -, rfl⟩ := hv
      trivial
    · exact safe_mismatch hm _ _
  | has =>
    simp only [Native.run, Native.runHas]
    split
    · exact absurd hleast (by decide)
    · split
      · exact safe_getStore_bind (safe_pure hm trivial)
      · exact safe_pure hm trivial
      · exact safe_mismatch hm _ _

theorem safe_native_call (hm : m.store.Closed) (n : Native) (receiver : Option Value)
    {args : List Value} (hargs : ∀ v ∈ args, m.store.Has v) :
    Safe Store.Has m.store (n.call receiver args m) := by
  unfold Native.call
  split
  · exact safe_raise hm _
  · refine safe_ofExcept_bind hm fun _ hcheck => safe_native_run hm n receiver hargs ?_
    unfold checkArity at hcheck
    split at hcheck
    · next hboth =>
      rw [Bool.and_eq_true] at hboth
      exact of_decide_eq_true hboth.1
    · cases hcheck

/-- The result of an operator names no object. -/
theorem has_arithmetic {f : Float → Float → Float} {left right v : Value}
    (h : left.arithmetic f right = .ok v) : σ.Has v := by
  cases left <;> cases right <;> cases h
  trivial

theorem has_comparison {test : Ordering → Bool} {left right v : Value}
    (h : left.comparison test right = .ok v) : σ.Has v := by
  unfold Value.comparison at h
  cases hr : left.order right with
  | error e =>
    rw [hr] at h
    cases h
  | ok o =>
    rw [hr] at h
    cases h
    trivial

theorem has_apply {op : BinaryOp} {left right v : Value}
    (h : op.apply σ left right = .ok v) : σ.Has v := by
  cases op with
  | add =>
    simp only [BinaryOp.apply] at h
    split at h
    · cases h
      trivial
    · exact has_arithmetic h
  | sub | mul | div | mod => exact has_arithmetic h
  | less | lessEqual | greater | greaterEqual => exact has_comparison h
  | equal | notEqual | and | or =>
    cases h
    trivial

theorem has_shortcut {op : BinaryOp} {left v : Value} (h : op.shortcut? left = some v) :
    σ.Has v := by
  unfold BinaryOp.shortcut? at h
  split at h
  · split at h <;> cases h
    trivial
  · split at h <;> cases h
    trivial
  · cases h

theorem has_unary {op : UnaryOp} {operand v : Value} (h : op.apply operand = .ok v) :
    σ.Has v := by
  cases op <;> cases operand <;> cases h <;> trivial

/-! ### Trees -/

section Trees

variable {eval : Expr Unit → Eval Value} {exec : Stmt Unit → Eval Completion}

/-- The evaluation of expressions is safe from every closed store. -/
def SafeEval (eval : Expr Unit → Eval Value) : Prop :=
  ∀ e (m : Machine), m.store.Closed → Safe Store.Has m.store (eval e m)

/-- The execution of statements is safe from every closed store. -/
def SafeExec (exec : Stmt Unit → Eval Completion) : Prop :=
  ∀ s (m : Machine), m.store.Closed → Safe Store.Completes m.store (exec s m)

theorem safe_evalAll (heval : SafeEval eval) (es : List (Expr Unit)) (hm : m.store.Closed) :
    Safe (fun σ vs => ∀ v ∈ vs, σ.Has v) m.store (evalAll eval es m) := by
  induction es generalizing m with
  | nil => exact safe_pure hm (by simp)
  | cons e es ih =>
    refine safe_bind (heval e m hm) fun v m₁ _ hm₁ _ hv => ?_
    refine safe_bind (ih hm₁) fun vs m₂ _ hm₂ hgrows hvs => safe_pure hm₂ ?_
    intro w hw
    rcases List.mem_cons.mp hw with rfl | hw
    · exact hv.mono hgrows
    · exact hvs w hw

theorem safe_evalEntries (heval : SafeEval eval) (es : List (String × Expr Unit))
    (hm : m.store.Closed) :
    Safe (fun σ vs => ∀ e ∈ vs, σ.Has e.2) m.store (evalEntries eval es m) := by
  induction es generalizing m with
  | nil => exact safe_pure hm (by simp)
  | cons e es ih =>
    refine safe_bind (heval e.2 m hm) fun v m₁ _ hm₁ _ hv => ?_
    refine safe_bind (ih hm₁) fun vs m₂ _ hm₂ hgrows hvs => safe_pure hm₂ ?_
    intro w hw
    rcases List.mem_cons.mp hw with rfl | hw
    · exact hv.mono hgrows
    · exact hvs w hw

theorem safe_evalCallee (heval : SafeEval eval) (callee : Expr Unit) (hm : m.store.Closed) :
    Safe (fun σ p => σ.Has p.1) m.store (evalCallee eval callee m) := by
  unfold evalCallee
  split
  · refine safe_bind (heval _ m hm) fun target m₁ _ hm₁ _ _ => ?_
    exact safe_bind (safe_readMember hm₁ _ _) fun f m₂ _ hm₂ _ hf => safe_pure hm₂ hf
  · exact safe_bind (heval _ m hm) fun f m₁ _ hm₁ _ hf => safe_pure hm₁ hf

theorem safe_assignTo (heval : SafeEval eval) (target : Target Unit) {v : Value}
    (hm : m.store.Closed) (hv : m.store.Has v) :
    Safe (fun _ _ => True) m.store (assignTo eval v target m) := by
  cases target with
  | var a name => exact safe_assign hm name hv
  | field a container name =>
    refine safe_bind (heval container m hm) fun target m₁ _ hm₁ hgrows _ => ?_
    exact safe_writeField hm₁ target name (hv.mono hgrows)
  | index a container key =>
    refine safe_bind (heval container m hm) fun target m₁ _ hm₁ hgrows _ => ?_
    refine safe_bind (heval key m₁ hm₁) fun k m₂ _ hm₂ hgrows' _ => ?_
    exact safe_writeIndex hm₂ target k ((hv.mono hgrows).mono hgrows')

theorem safe_runAll (hexec : SafeExec exec) (body : List (Stmt Unit)) {last : Value}
    (hm : m.store.Closed) (hlast : m.store.Has last) :
    Safe Store.Completes m.store (runAll exec last body m) := by
  induction body generalizing m last with
  | nil => exact safe_pure hm hlast
  | cons s body ih =>
    refine safe_bind (hexec s m hm) fun flow m₁ _ hm₁ _ hflow => ?_
    cases flow with
    | next v => exact ih hm₁ hflow
    | ret v => exact safe_pure hm₁ hflow
    | brk | cont => exact safe_pure hm₁ trivial

theorem safe_runBody (hexec : SafeExec exec) (body : List (Stmt Unit)) (scope : ScopeId)
    (hm : m.store.Closed) : Safe Store.Completes m.store (runBody exec body scope m) := by
  have hlast : m.store.Has .undefined := trivial
  exact safe_within scope (safe_runAll hexec body (m := { m with scope := scope }) hm hlast)

theorem safe_runInner (hexec : SafeExec exec) (body : List (Stmt Unit)) {bindings : Dict Value}
    (hm : m.store.Closed) (hbindings : ∀ e ∈ bindings.entries, m.store.Has e.2) :
    Safe Store.Completes m.store (runInner exec bindings body m) := by
  refine safe_bind (safe_newScope hm m.scope hbindings) fun scope m₁ _ hm₁ _ _ => ?_
  exact safe_runBody hexec body scope hm₁

theorem safe_runBlock (hexec : SafeExec exec) (body : List (Stmt Unit)) (hm : m.store.Closed) :
    Safe Store.Completes m.store (runInner exec .empty body m) :=
  safe_runInner hexec body hm (by simp [Dict.empty])

theorem safe_runBinding (hexec : SafeExec exec) (name : String) (body : List (Stmt Unit))
    {v : Value} (hm : m.store.Closed) (hv : m.store.Has v) :
    Safe Store.Completes m.store (runBinding exec name body v m) := by
  refine safe_runInner hexec body hm fun e he => ?_
  rcases Dict.mem_insert he with rfl | he
  · exact hv
  · cases he

theorem safe_forLoop (hexec : SafeExec exec) (name : String) (body : List (Stmt Unit))
    (items : List Value) (hm : m.store.Closed) (hitems : ∀ v ∈ items, m.store.Has v) :
    Safe Store.Completes m.store (forLoop (runBinding exec name body) items m) := by
  induction items generalizing m with
  | nil => exact safe_pure hm trivial
  | cons item items ih =>
    have hitem := safe_runBinding hexec name body hm (hitems item (.head _))
    refine safe_bind hitem fun flow m₁ _ hm₁ hgrows hflow => ?_
    have hrest := ih hm₁ fun v hv => (hitems v (.tail _ hv)).mono hgrows
    cases flow with
    | next v | cont => exact hrest
    | ret v => exact safe_pure hm₁ hflow
    | brk => exact safe_pure hm₁ trivial

theorem safe_whileLoop (heval : SafeEval eval) (hexec : SafeExec exec) (condition : Expr Unit)
    (body : List (Stmt Unit)) (rounds : Nat) (hm : m.store.Closed) :
    Safe Store.Completes m.store
      (whileLoop (eval condition) (runInner exec .empty body) rounds m) := by
  induction rounds generalizing m with
  | zero => exact safe_stop hm trivial
  | succ rounds ih =>
    refine safe_bind (heval condition m hm) fun v m₁ _ hm₁ _ _ => ?_
    split
    · refine safe_bind (safe_runBlock hexec body hm₁) fun flow m₂ _ hm₂ _ hflow => ?_
      cases flow with
      | next v | cont => exact ih hm₂
      | ret v => exact safe_pure hm₂ hflow
      | brk => exact safe_pure hm₂ trivial
    · exact safe_pure hm₁ trivial

/-- The body of a function is run with its arguments. -/
theorem safe_callClosure (hexec : SafeExec exec) (c : Closure) {args : List Value}
    (hm : m.store.Closed) (hargs : ∀ v ∈ args, m.store.Has v) :
    Safe Store.Has m.store (callClosure exec c args m) := by
  unfold callClosure
  split
  · exact safe_raise hm _
  show Safe Store.Has m.store ((if maxCallDepth ≤ m.depth then _ else _ : Eval Value) m)
  split
  · exact safe_raise hm _
  have hbindings : ∀ e ∈ (Dict.empty.insertAll (c.params.zip args)).entries, m.store.Has e.2 := by
    intro e he
    rcases Dict.mem_insertAll he with he | he
    · exact hargs e.2 (List.of_mem_zip he).2
    · cases he
  refine safe_bind (safe_newScope hm c.scope hbindings) fun scope m₁ _ hm₁ _ _ => ?_
  have hbody : Safe Store.Completes m₁.store (calling (runBody exec c.body scope) m₁) :=
    safe_calling (safe_runBody hexec c.body scope (m := { m₁ with depth := m₁.depth + 1 }) hm₁)
  refine safe_bind hbody fun flow m₂ _ hm₂ _ hflow => ?_
  cases flow with
  | next v | ret v => exact safe_pure hm₂ hflow
  | brk | cont => exact safe_raise hm₂ _

/-- A function value names a function object. -/
theorem safe_call (hexec : SafeExec exec) {callee : Value} (receiver : Option Value)
    {args : List Value} (hm : m.store.Closed) (hcallee : m.store.Has callee)
    (hargs : ∀ v ∈ args, m.store.Has v) :
    Safe Store.Has m.store (Eval.call exec callee receiver args m) := by
  cases callee with
  | function f =>
    refine safe_getStore_bind ?_
    cases hf : m.store.function? f with
    | none =>
      have hnone : m.store.functions.size ≤ f.index := Array.getElem?_eq_none_iff.mp hf
      exact absurd hcallee (Nat.not_lt.mpr hnone)
    | some g =>
      cases g with
      | native n => exact safe_native_call hm n receiver hargs
      | closure c => exact safe_callClosure hexec c hm hargs
  | undefined | boolean | number | text | array | map => exact safe_raise hm _

/-- **One level of an expression.** -/
theorem safe_evalWith (heval : SafeEval eval) (hexec : SafeExec exec) (e : Expr Unit)
    (hm : m.store.Closed) : Safe Store.Has m.store (e.evalWith eval exec m) := by
  cases e with
  | number | text | boolean | undefined => exact safe_pure hm trivial
  | var a name => exact safe_lookup hm name
  | binary a op left right =>
    refine safe_bind (heval left m hm) fun l m₁ _ hm₁ _ _ => ?_
    cases hshort : op.shortcut? l with
    | some v => exact safe_pure hm₁ (has_shortcut hshort)
    | none =>
      refine safe_bind (heval right m₁ hm₁) fun r m₂ _ hm₂ _ _ => ?_
      exact safe_getStore_bind (safe_ofExcept hm₂ fun v hv => has_apply hv)
  | unary a op operand =>
    refine safe_bind (heval operand m hm) fun v m₁ _ hm₁ _ _ => ?_
    exact safe_ofExcept hm₁ fun w hw => has_unary hw
  | assign a target value =>
    refine safe_bind (heval value m hm) fun v m₁ _ hm₁ _ hv => ?_
    refine safe_bind (safe_assignTo heval target hm₁ hv) fun _ m₂ _ hm₂ hgrows _ => ?_
    exact safe_pure hm₂ (hv.mono hgrows)
  | call a callee args =>
    refine safe_bind (safe_evalCallee heval callee hm) fun p m₁ _ hm₁ _ hp => ?_
    refine safe_bind (safe_evalAll heval args hm₁) fun vs m₂ _ hm₂ hgrows hvs => ?_
    exact safe_call hexec p.2 hm₂ (hp.mono hgrows) hvs
  | array a items =>
    refine safe_bind (safe_evalAll heval items hm) fun vs m₁ _ hm₁ _ hvs => ?_
    exact safe_newArray hm₁ fun v hv => hvs v (List.mem_toArray.mp hv)
  | map a entries =>
    refine safe_bind (safe_evalEntries heval entries hm) fun vs m₁ _ hm₁ _ hvs => ?_
    refine safe_newMap hm₁ fun e he => ?_
    rcases Dict.mem_insertAll he with he | he
    · exact hvs e he
    · cases he
  | index a container key =>
    refine safe_bind (heval container m hm) fun target m₁ _ hm₁ _ _ => ?_
    exact safe_bind (heval key m₁ hm₁) fun k m₂ _ hm₂ _ _ => safe_readIndex hm₂ target k
  | field a container name =>
    refine safe_bind (heval container m hm) fun target m₁ _ hm₁ _ _ => ?_
    exact safe_readMember hm₁ target name
  | lambda a name params body => exact safe_newClosure hm name params body

theorem completes_settle {flow : Completion} (h : σ.Completes flow) :
    σ.Completes flow.settle := by
  cases flow with
  | next v => trivial
  | ret v => exact h
  | brk | cont => trivial

theorem safe_evalOption (heval : SafeEval eval) (e : Option (Expr Unit)) (hm : m.store.Closed) :
    Safe Store.Has m.store (evalOption eval e m) := by
  cases e with
  | none => exact safe_pure hm trivial
  | some e => exact heval e m hm

/-- The items that a loop goes through name objects. -/
theorem has_items {v : Value} {vs : List Value} (hσ : σ.Closed) (h : σ.items v = .ok vs) :
    ∀ w ∈ vs, σ.Has w := by
  intro w hw
  cases v with
  | array a =>
    cases h
    exact hσ.has_item (Array.mem_toList_iff.mp hw)
  | text s =>
    cases h
    obtain ⟨c, -, rfl⟩ := List.mem_map.mp hw
    trivial
  | map d =>
    cases h
    obtain ⟨key, -, rfl⟩ := List.mem_map.mp hw
    trivial
  | undefined | boolean | number | function => cases h

/-- **One level of a statement.** -/
theorem safe_execWith (heval : SafeEval eval) (hexec : SafeExec exec) (rounds : Nat)
    (s : Stmt Unit) (hm : m.store.Closed) :
    Safe Store.Completes m.store (s.execWith rounds eval exec m) := by
  cases s with
  | letVar a name init =>
    refine safe_bind (safe_evalOption heval init hm) fun v m₁ _ hm₁ _ hv => ?_
    refine safe_bind (safe_define hm₁ name hv) fun _ m₂ _ hm₂ hgrows _ => ?_
    exact safe_pure hm₂ (hv.mono hgrows)
  | function a name params body =>
    refine safe_bind (safe_newClosure hm (some name) params body) fun f m₁ _ hm₁ _ hf => ?_
    refine safe_bind (safe_define hm₁ name hf) fun _ m₂ _ hm₂ hgrows _ => ?_
    exact safe_pure hm₂ (hf.mono hgrows)
  | expr a e => exact safe_bind (heval e m hm) fun v m₁ _ hm₁ _ hv => safe_pure hm₁ hv
  | block a body => exact safe_runBlock hexec body hm
  | ifElse a condition yes no =>
    refine safe_bind (heval condition m hm) fun v m₁ _ hm₁ _ _ => ?_
    split
    · exact safe_bind (safe_runBlock hexec yes hm₁) fun flow m₂ _ hm₂ _ hflow =>
        safe_pure hm₂ (completes_settle hflow)
    · cases no with
      | some no =>
        exact safe_bind (safe_runBlock hexec no hm₁) fun flow m₂ _ hm₂ _ hflow =>
          safe_pure hm₂ (completes_settle hflow)
      | none => exact safe_pure hm₁ trivial
  | whileLoop a condition body => exact safe_whileLoop heval hexec condition body rounds hm
  | forEach a name items body =>
    refine safe_bind (heval items m hm) fun v m₁ _ hm₁ _ _ => safe_getStore_bind ?_
    exact safe_ofExcept_bind hm₁ fun vs hvs =>
      safe_forLoop hexec name body vs hm₁ (has_items hm₁ hvs)
  | tryCatch a body name handler =>
    have hcatch : Safe Store.Completes m.store
        (catching (runInner exec .empty body) (runBinding exec name handler) m) :=
      safe_catching (safe_runBlock hexec body hm) fun payload m' hm' hpayload =>
        safe_runBinding hexec name handler hm' hpayload
    exact safe_bind hcatch fun flow m₁ _ hm₁ _ hflow => safe_pure hm₁ (completes_settle hflow)
  | throw a e => exact safe_bind (heval e m hm) fun v m₁ _ hm₁ _ hv => safe_stop hm₁ hv
  | ret a e =>
    exact safe_bind (safe_evalOption heval e hm) fun v m₁ _ hm₁ _ hv => safe_pure hm₁ hv
  | brk a | cont a => exact safe_pure hm trivial

end Trees

end Eval

/-! ## Programs -/

/-- **No access fails.**  Evaluation from a closed store keeps it closed, and no fault occurs. -/
theorem safe_eval_exec (fuel : Nat) : SafeEval (evalExpr fuel) ∧ SafeExec (execStmt fuel) := by
  induction fuel with
  | zero => exact ⟨fun _ _ hm => safe_stop hm trivial, fun _ _ hm => safe_stop hm trivial⟩
  | succ fuel ih =>
    obtain ⟨heval, hexec⟩ := ih
    exact ⟨fun e _ hm => safe_evalWith heval hexec e hm,
      fun s _ hm => safe_execWith heval hexec fuel s hm⟩

theorem safe_evaluate (fuel : Nat) (s : Stmt Unit) {m : Machine} (hm : m.store.Closed) :
    Safe Store.Has m.store (s.evaluate fuel m) := by
  refine safe_bind ((safe_eval_exec fuel).2 s m hm) fun flow m₁ _ hm₁ _ hflow => ?_
  cases flow with
  | next v => exact safe_pure hm₁ hflow
  | ret | brk | cont => exact safe_raise hm₁ _

end Script
