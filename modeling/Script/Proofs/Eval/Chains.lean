import Script.Proofs.Eval.ScopeFrame
import Script.Proofs.Value.Bounds

/-!
# Chains of scopes

From a scope one gets outwards from scope to scope, until there is none around.  A store is anchored
at a scope if all these chains end there: the scope around each other scope is older, so no chain
comes back to where it was, and the scopes that function objects remember are scopes of the store.

A name belongs to the first scope of the chain that binds it.  An assignment changes the value of
that one binding, and no name belongs to another scope afterwards.  So it can be seen from the
scopes for which the name belongs to the same scope, and from nowhere else.

## Main definitions

* `Store.outer?`, `Store.Chain`: the scope around a scope, and all scopes from a scope outwards.
* `Store.Anchored`: all chains end at one scope.
* `Store.Overwrites`: one binding has another value.
* `Store.Lexical`: what names and assignments mean in a store.

## Main results

* `Store.Anchored.exists_chain`: the chain of a scope.
* `Store.Chain.resolve?_eq`: the scope that a name belongs to.
* `Store.Overwrites.lookup_eq`: who sees an assignment.
* `Store.Anchored.lexical`: what names and assignments mean in an anchored store.
* `Store.Anchored.newScope`, `Store.Anchored.newFunction`: new scopes and new functions.
-/

namespace Script

namespace Store

variable {σ τ : Store} {root here s t owner : ScopeId} {name : String} {value : Value}

/-! ## The scope around a scope -/

/-- The scope around a scope of the store, if there is one around it. -/
def outer? (σ : Store) (s : ScopeId) : Option (Option ScopeId) := (σ.scope? s).map Scope.outer

theorem hasScope_iff : σ.HasScope s ↔ ∃ outer, σ.outer? s = some outer := by
  rw [HasScope, ← Option.isSome_iff_exists, outer?, Option.isSome_map, scope?,
    isSome_getElem?]

theorem outer?_of_scopes_eq (h : τ.scopes = σ.scopes) (s : ScopeId) : τ.outer? s = σ.outer? s := by
  rw [outer?, outer?, scope?, scope?, h]

theorem outer?_define (here s : ScopeId) (name : String) (value : Value) :
    (σ.define here name value).outer? s = σ.outer? s := by
  simp only [outer?, scope?, define, Array.getElem?_modify]
  split
  · cases σ.scopes[s.index]? <;> rfl
  · rfl

theorem outer?_newScope_of_hasScope (outer : Option ScopeId) (bindings : Dict Value)
    (h : σ.HasScope s) : (σ.newScope outer bindings).2.outer? s = σ.outer? s := by
  have hne : s.index ≠ σ.scopes.size := Nat.ne_of_lt h
  simp [outer?, scope?, newScope, Array.getElem?_push, hne]

theorem outer?_newScope_self (outer : Option ScopeId) (bindings : Dict Value) :
    (σ.newScope outer bindings).2.outer? ⟨σ.scopes.size⟩ = some outer := by
  simp [outer?, scope?, newScope]

/-! ## Chains -/

/-- The scopes from `s` outwards, up to one that has no scope around it. -/
inductive Chain (σ : Store) : ScopeId → List ScopeId → Prop where
  | last {s : ScopeId} (hs : σ.outer? s = some none) : Chain σ s [s]
  | cons {s outer : ScopeId} {rest : List ScopeId} (hs : σ.outer? s = some (some outer))
      (hrest : Chain σ outer rest) : Chain σ s (s :: rest)

/-- **All chains end at the scope `root`.** -/
structure Anchored (root : ScopeId) (σ : Store) : Prop where
  /-- No scope is around it. -/
  outer_root : σ.outer? root = some none
  /-- Around each other scope there is an older one. -/
  exists_outer : ∀ {s : ScopeId}, σ.HasScope s → s ≠ root →
    ∃ outer, σ.outer? s = some (some outer) ∧ outer.index < s.index
  /-- Functions are made in scopes of the store. -/
  captured : ∀ {f : FunctionId} {c : Closure}, σ.function? f = some (.closure c) →
    σ.HasScope c.scope

theorem Anchored.hasScope_root (h : σ.Anchored root) : σ.HasScope root :=
  hasScope_iff.mpr ⟨none, h.outer_root⟩

theorem Anchored.index_lt {outer : ScopeId} (h : σ.Anchored root)
    (hs : σ.outer? s = some (some outer)) : outer.index < s.index := by
  have hne : s ≠ root := by
    rintro rfl
    rw [h.outer_root] at hs
    cases hs
  obtain ⟨outer', houter, hlt⟩ := h.exists_outer (hasScope_iff.mpr ⟨_, hs⟩) hne
  rw [hs] at houter
  cases houter
  exact hlt

theorem Anchored.outerOlder (h : σ.Anchored root) : σ.OuterOlder := by
  intro s scope outer hs houter
  refine h.index_lt ?_
  rw [outer?, hs, Option.map_some, houter]

/-- **Every scope has a chain, and it ends at the root.**  The induction is on the age of the
scope. -/
theorem Anchored.exists_chain (h : σ.Anchored root) (hs : σ.HasScope s) :
    ∃ chain, σ.Chain s chain ∧ chain.getLast? = some root := by
  obtain ⟨i⟩ := s
  induction i using Nat.strongRecOn with
  | ind i ih =>
    by_cases hroot : (⟨i⟩ : ScopeId) = root
    · rw [hroot]
      exact ⟨[root], .last h.outer_root, rfl⟩
    · obtain ⟨outer, houter, hlt⟩ := h.exists_outer hs hroot
      obtain ⟨chain, hchain, hlast⟩ := ih outer.index hlt (Nat.lt_trans hlt hs)
      refine ⟨⟨i⟩ :: chain, .cons houter hchain, ?_⟩
      rw [List.getLast?_cons, hlast]
      rfl

theorem Chain.index_le (h : σ.Anchored root) {chain : List ScopeId} (hchain : σ.Chain s chain)
    (ht : t ∈ chain) : t.index ≤ s.index := by
  induction hchain with
  | last => exact Nat.le_of_eq (congrArg _ (List.mem_singleton.mp ht))
  | cons hs _ ih =>
    rcases List.mem_cons.mp ht with rfl | ht
    · exact Nat.le_refl _
    · exact Nat.le_of_lt (Nat.lt_of_le_of_lt (ih ht) (h.index_lt hs))

/-- **A chain does not come back to a scope.** -/
theorem Chain.nodup (h : σ.Anchored root) {chain : List ScopeId} (hchain : σ.Chain s chain) :
    chain.Nodup := by
  induction hchain with
  | last => simp
  | cons hs hrest ih =>
    refine List.nodup_cons.mpr ⟨fun hmem => ?_, ih⟩
    have hle := hrest.index_le h hmem
    have hlt := h.index_lt hs
    omega

/-! ## The scope that a name belongs to -/

/-- Whether a scope binds a name. -/
def binds (σ : Store) (name : String) (s : ScopeId) : Bool := (σ.bindings s).contains name

theorem binds_iff : σ.binds name s = true ↔ name ∈ σ.namesIn s := Dict.contains_iff

theorem resolveWithin_of_outer? {outer : Option ScopeId} (hs : σ.outer? s = some outer)
    (limit : Nat) : σ.resolveWithin name (limit + 1) s =
      if σ.binds name s then some s else outer.bind (σ.resolveWithin name limit) := by
  obtain ⟨scope, hscope, rfl⟩ := Option.map_eq_some_iff.mp hs
  simp only [resolveWithin, binds, bindings, hscope]
  cases scope.outer <;> rfl

theorem resolveWithin_of_outer?_none (hs : σ.outer? s = none) (limit : Nat) :
    σ.resolveWithin name limit s = none := by
  cases limit with
  | zero => rfl
  | succ limit => rw [resolveWithin, Option.map_eq_none_iff.mp hs]

/-- **A name belongs to the first scope of the chain that binds it.** -/
theorem Chain.resolve?_eq (h : σ.Anchored root) {chain : List ScopeId} (hchain : σ.Chain s chain)
    (name : String) : σ.resolve? s name = chain.find? (σ.binds name) := by
  induction hchain with
  | @last s hs =>
    rw [resolve?, resolveWithin_of_outer? hs, List.find?_cons, List.find?_nil]
    cases σ.binds name s <;> rfl
  | @cons s outer rest hs _ ih =>
    rw [resolve?, resolveWithin_of_outer? hs, Option.bind_some,
      resolveWithin_of_le h.outerOlder name (h.index_lt hs), ih, List.find?_cons]
    cases σ.binds name s <;> rfl

/-- A name has a value where it belongs to a scope. -/
theorem isSome_lookup (σ : Store) (s : ScopeId) (name : String) :
    (σ.lookup s name).isSome = (σ.resolve? s name).isSome := by
  unfold lookup
  cases hresolve : σ.resolve? s name with
  | none => rfl
  | some owner =>
    have hmem : name ∈ σ.namesIn owner := mem_namesIn_of_resolveWithin hresolve
    exact binds_iff.mpr hmem

/-! ## Assignments -/

/-- The store `τ` is `σ` with another value for the name `name` of the scope `owner`, and nothing
else is different. -/
structure Overwrites (σ : Store) (owner : ScopeId) (name : String) (value : Value) (τ : Store) :
    Prop where
  arrays : τ.arrays = σ.arrays
  maps : τ.maps = σ.maps
  functions : τ.functions = σ.functions
  outer : ∀ t, τ.outer? t = σ.outer? t
  names : ∀ t, τ.namesIn t = σ.namesIn t
  get? : ∀ t other, (τ.bindings t).get? other =
    if t = owner ∧ other = name then some value else (σ.bindings t).get? other

theorem hasScope_of_mem_namesIn (h : name ∈ σ.namesIn s) : σ.HasScope s := by
  rw [namesIn, bindings] at h
  split at h
  · next scope hs => exact hasScope_iff.mpr ⟨scope.outer, by rw [outer?, hs, Option.map_some]⟩
  · cases h

/-- A binding that there is gets another value. -/
theorem overwrites_define (h : name ∈ σ.namesIn owner) (value : Value) :
    σ.Overwrites owner name value (σ.define owner name value) := by
  have hself := bindings_define_self name value (hasScope_of_mem_namesIn h)
  refine ⟨rfl, rfl, rfl, fun t => outer?_define owner t name value, ?_, ?_⟩
  · intro t
    by_cases ht : t = owner
    · subst ht
      rw [namesIn, hself, Dict.keys_insert]
      exact if_pos h
    · rw [namesIn, bindings_define_of_ne name value ht, namesIn]
  · intro t other
    by_cases ht : t = owner
    · subst ht
      rw [hself, Dict.get?_insert]
      simp only [true_and]
    · rw [bindings_define_of_ne name value ht, if_neg (fun hboth => ht hboth.1)]

/-- **Every name belongs to the same scope as before.** -/
theorem Overwrites.resolve?_eq (h : σ.Overwrites owner name value τ) (s : ScopeId)
    (other : String) : τ.resolve? s other = σ.resolve? s other := by
  have hbinds : ∀ t, τ.binds other t = σ.binds other t := by
    intro t
    rw [Bool.eq_iff_iff, binds_iff, binds_iff, h.names]
  unfold resolve?
  generalize s.index + 1 = limit
  induction limit generalizing s with
  | zero => rfl
  | succ limit ih =>
    have hs := h.outer s
    cases houter : σ.outer? s with
    | none =>
      rw [houter] at hs
      rw [resolveWithin_of_outer?_none hs, resolveWithin_of_outer?_none houter]
    | some outer =>
      rw [houter] at hs
      rw [resolveWithin_of_outer? hs, resolveWithin_of_outer? houter, hbinds, funext ih]

/-- **Who sees an assignment**: the scopes for which the name belongs to the same scope. -/
theorem Overwrites.lookup_eq (h : σ.Overwrites owner name value τ) (s : ScopeId)
    (other : String) :
    τ.lookup s other = if σ.resolve? s other = some owner ∧ other = name then some value
      else σ.lookup s other := by
  unfold lookup
  rw [h.resolve?_eq]
  cases σ.resolve? s other with
  | none => simp
  | some t => simp only [h.get?, Option.some.injEq]

/-- An assignment succeeds if the name belongs to a scope. -/
theorem assign_eq_true_iff : (σ.assign s name value).1 = true ↔
    ∃ owner, σ.resolve? s name = some owner := by
  unfold assign
  cases σ.resolve? s name with
  | none => simp
  | some owner => simp

/-- An assignment that succeeds overwrites the binding that the name belongs to. -/
theorem overwrites_assign (h : σ.resolve? s name = some owner) (value : Value) :
    σ.Overwrites owner name value (σ.assign s name value).2 := by
  rw [assign, h]
  exact overwrites_define (mem_namesIn_of_resolveWithin h) value

/-- An assignment that fails does nothing. -/
theorem assign_of_false (h : (σ.assign s name value).1 = false) :
    (σ.assign s name value).2 = σ := by
  unfold assign at h ⊢
  cases hresolve : σ.resolve? s name with
  | none => rfl
  | some owner =>
    rw [hresolve] at h
    cases h

/-! ## What names and assignments mean -/

/-- From the scope `s` outwards there are finitely many scopes, no scope twice, and the last of them
is `root`.  A name belongs to the first of them that binds it. -/
def EndsAt (σ : Store) (root s : ScopeId) : Prop :=
  ∃ chain, σ.Chain s chain ∧ chain.Nodup ∧ chain.getLast? = some root ∧
    ∀ name, σ.resolve? s name = chain.find? (σ.binds name)

/-- **What names and assignments mean** in a store whose chains end at `root`. -/
structure Lexical (root : ScopeId) (σ : Store) : Prop where
  /-- The chain of every scope ends at the root. -/
  scopes : ∀ s, σ.HasScope s → σ.EndsAt root s
  /-- So does that of every scope in which a function was made. -/
  captured : ∀ f c, σ.function? f = some (.closure c) → σ.EndsAt root c.scope
  /-- An assignment succeeds if the name has a value. -/
  assign_iff : ∀ s name value, (σ.assign s name value).1 = true ↔
    ∃ old, σ.lookup s name = some old
  /-- If it succeeds, the binding that was read has the new value, and nothing else is different. -/
  overwrites : ∀ s name value, (σ.assign s name value).1 = true → ∃ owner,
    σ.resolve? s name = some owner ∧ σ.Overwrites owner name value (σ.assign s name value).2
  /-- So the new value is read where the name belongs to the same scope, and nowhere else. -/
  lookup_assign : ∀ s name value, (σ.assign s name value).1 = true → ∀ t other,
    (σ.assign s name value).2.lookup t other =
      if σ.resolve? t other = σ.resolve? s name ∧ other = name then some value
      else σ.lookup t other
  /-- If it fails, the store is the same. -/
  unchanged : ∀ s name value, (σ.assign s name value).1 = false →
    (σ.assign s name value).2 = σ

namespace Anchored

theorem endsAt (h : σ.Anchored root) (hs : σ.HasScope s) : σ.EndsAt root s := by
  obtain ⟨chain, hchain, hlast⟩ := h.exists_chain hs
  exact ⟨chain, hchain, hchain.nodup h, hlast, hchain.resolve?_eq h⟩

/-- **In an anchored store, names and assignments mean what they should.** -/
theorem lexical (h : σ.Anchored root) : σ.Lexical root := by
  refine ⟨fun s hs => h.endsAt hs, fun f c hf => h.endsAt (h.captured hf), ?_, ?_, ?_, ?_⟩
  · intro s name value
    rw [assign_eq_true_iff, ← Option.isSome_iff_exists, ← Option.isSome_iff_exists, isSome_lookup]
  · intro s name value hassign
    obtain ⟨owner, howner⟩ := assign_eq_true_iff.mp hassign
    exact ⟨owner, howner, overwrites_assign howner value⟩
  · intro s name value hassign t other
    obtain ⟨owner, howner⟩ := assign_eq_true_iff.mp hassign
    rw [(overwrites_assign howner value).lookup_eq, howner]
  · exact fun s name value hassign => assign_of_false hassign

/-! ## Changes -/

/-- A store stays anchored as long as the scopes around scopes and the functions are the same. -/
theorem of_outer?_eq (h : σ.Anchored root) (houter : ∀ s, τ.outer? s = σ.outer? s)
    (hfunctions : τ.functions = σ.functions) : τ.Anchored root := by
  have hhas : ∀ s, τ.HasScope s ↔ σ.HasScope s := by
    intro s
    rw [hasScope_iff, hasScope_iff, houter]
  refine ⟨by rw [houter, h.outer_root], ?_, ?_⟩
  · intro s hs hne
    rw [houter]
    exact h.exists_outer ((hhas s).mp hs) hne
  · intro f c hf
    rw [function?, hfunctions] at hf
    exact (hhas c.scope).mpr (h.captured hf)

/-- A function may be made in any scope of the store. -/
theorem newFunction (h : σ.Anchored root) {f : Function}
    (hf : ∀ c, f = .closure c → σ.HasScope c.scope) : (σ.newFunction f).2.Anchored root := by
  refine ⟨h.outer_root, h.exists_outer, ?_⟩
  intro g c hg
  simp only [function?, Store.newFunction, Array.getElem?_push] at hg
  split at hg
  · exact hf c (Option.some.inj hg)
  · exact h.captured hg

/-- A scope may be made inside of any scope of the store. -/
theorem newScope (h : σ.Anchored root) (hhere : σ.HasScope here) (bindings : Dict Value) :
    (σ.newScope (some here) bindings).2.Anchored root := by
  have hsize : (σ.newScope (some here) bindings).2.scopes.size = σ.scopes.size + 1 := by
    simp [Store.newScope]
  refine ⟨?_, ?_, ?_⟩
  · rw [outer?_newScope_of_hasScope _ _ h.hasScope_root, h.outer_root]
  · intro s hs hne
    by_cases hold : σ.HasScope s
    · rw [outer?_newScope_of_hasScope _ _ hold]
      exact h.exists_outer hold hne
    · -- the new scope is the youngest
      obtain ⟨i⟩ := s
      have hi : i = σ.scopes.size := by
        have hlt : i < σ.scopes.size + 1 := hsize ▸ hs
        exact Nat.le_antisymm (Nat.le_of_lt_succ hlt) (Nat.not_lt.mp hold)
      subst hi
      exact ⟨here, outer?_newScope_self _ _, hhere⟩
  · intro f c hf
    have hscope : σ.HasScope c.scope := h.captured hf
    rw [HasScope, hsize]
    exact Nat.lt_succ_of_lt hscope

end Anchored

end Store

end Script
