import Script.Value.Equality
import Script.Value.Render

/-!
# The bounds of the store are never reached

The text of a value, the comparison of two values and the search for a name all go from object to
object of the store, and each has a bound on the length of the way.  None of the bounds plays a
part in the result: a way through containers never enters a container twice, a comparison never
comes back to a pair that is under way, and the scope around a scope is older than the scope.  So
all three come to an end by themselves, also if containers contain themselves.

## Main definitions

* `Store.containers`, `Store.comparisons`: what can be entered, and what can be compared.

## Main results

* `Store.render_of_le`: the text of a value does not depend on the bound.
* `Store.equalWithin_of_le`: equality does not depend on the bound.
* `Store.resolveWithin_of_le`: the scope of a name does not depend on the bound.
-/

namespace Script

/-- One thing less is left once it has been entered. -/
theorem length_filter_notMem_cons_lt {α : Type} [DecidableEq α] {all around : List α} {c : α}
    (hc : c ∈ all) (hnew : c ∉ around) :
    (all.filter (· ∉ c :: around)).length < (all.filter (· ∉ around)).length := by
  have hsplit : all.filter (· ∉ c :: around) = (all.filter (· ∉ around)).filter (· ≠ c) := by
    rw [List.filter_filter]
    refine List.filter_congr fun x _ => ?_
    simp
  rw [hsplit, List.length_filter_lt_length_iff_exists]
  refine ⟨c, List.mem_filter.mpr ⟨hc, by simpa using hnew⟩, by simp⟩

/-- What all members of a list pass depends on the members only. -/
theorem all_eq_all_of_mem {α : Type} {l : List α} {p q : α → Bool} (h : ∀ x ∈ l, p x = q x) :
    l.all p = l.all q := by
  rw [Bool.eq_iff_iff, List.all_eq_true, List.all_eq_true]
  constructor
  · intro hp x hx
    rw [← h x hx]
    exact hp x hx
  · intro hq x hx
    rw [h x hx]
    exact hq x hx

namespace Store

variable {σ : Store}

/-! ## Texts -/

/-- The containers of a store. -/
def containers (σ : Store) : List Container :=
  (List.range σ.arrays.size).map (fun i => .array ⟨i⟩) ++
    (List.range σ.maps.size).map (fun i => .map ⟨i⟩)

theorem array_mem_containers {a : ArrayId} (h : a.index < σ.arrays.size) :
    .array a ∈ σ.containers :=
  List.mem_append_left _ (List.mem_map.mpr ⟨a.index, List.mem_range.mpr h, rfl⟩)

theorem map_mem_containers {m : MapId} (h : m.index < σ.maps.size) : .map m ∈ σ.containers :=
  List.mem_append_right _ (List.mem_map.mpr ⟨m.index, List.mem_range.mpr h, rfl⟩)

/-- Only an array of the store has items. -/
theorem index_lt_of_mem_array {a : ArrayId} {v : Value} (h : v ∈ (σ.array a).toList) :
    a.index < σ.arrays.size := by
  unfold array at h
  refine Decidable.byContradiction fun hout => ?_
  rw [Array.getD_eq_getD_getElem?, Array.getElem?_eq_none (Nat.le_of_not_lt hout)] at h
  cases h

/-- Only a map of the store has entries. -/
theorem index_lt_of_mem_map {m : MapId} {e : String × Value} (h : e ∈ (σ.map m).entries) :
    m.index < σ.maps.size := by
  unfold map at h
  refine Decidable.byContradiction fun hout => ?_
  rw [Array.getD_eq_getD_getElem?, Array.getElem?_eq_none (Nat.le_of_not_lt hout)] at h
  cases h

theorem index_lt_of_get? {m : MapId} {key : String} {v : Value}
    (h : (σ.map m).get? key = some v) : m.index < σ.maps.size := by
  unfold map at h
  refine Decidable.byContradiction fun hout => ?_
  rw [Array.getD_eq_getD_getElem?, Array.getElem?_eq_none (Nat.le_of_not_lt hout)] at h
  cases h

/-- The number of containers that have not been entered. -/
def containersLeft (σ : Store) (around : List Container) : Nat :=
  (σ.containers.filter (· ∉ around)).length

/-- Two bounds that exceed the number of containers left give the same text. -/
theorem render_eq_render {d d' : Nat} {around : List Container} (h : σ.containersLeft around < d)
    (h' : σ.containersLeft around < d') (nested : Bool) (v : Value) :
    σ.render d around nested v = σ.render d' around nested v := by
  induction d generalizing d' around nested v with
  | zero => exact absurd h (Nat.not_lt_zero _)
  | succ d ih =>
    obtain ⟨d', rfl⟩ : ∃ k, d' = k + 1 := ⟨d' - 1, by omega⟩
    cases v with
    | undefined | boolean _ | number _ | text _ | function _ => rfl
    | array a =>
      -- an array that has items is one of the store, so entering it leaves fewer containers
      by_cases hnew : .array a ∈ around
      · simp only [render, if_pos hnew]
      · have hitems : (σ.array a).toList.map (σ.render d (.array a :: around) true) =
            (σ.array a).toList.map (σ.render d' (.array a :: around) true) := by
          refine List.map_congr_left fun v hv => ?_
          have hless : σ.containersLeft (.array a :: around) < σ.containersLeft around :=
            length_filter_notMem_cons_lt (array_mem_containers (index_lt_of_mem_array hv)) hnew
          exact ih (by omega) (by omega) true v
        simp only [render, if_neg hnew, hitems]
    | map m =>
      by_cases hnew : .map m ∈ around
      · simp only [render, if_pos hnew]
      · have hitems : (σ.map m).entries.map
              (fun e => e.1 ++ ": " ++ σ.render d (.map m :: around) true e.2) =
            (σ.map m).entries.map
              (fun e => e.1 ++ ": " ++ σ.render d' (.map m :: around) true e.2) := by
          refine List.map_congr_left fun e he => ?_
          have hless : σ.containersLeft (.map m :: around) < σ.containersLeft around :=
            length_filter_notMem_cons_lt (map_mem_containers (index_lt_of_mem_map he)) hnew
          have htext : σ.render d (.map m :: around) true e.2 =
              σ.render d' (.map m :: around) true e.2 := ih (by omega) (by omega) true e.2
          rw [htext]
        simp only [render, if_neg hnew, hitems]

/-- The bound exceeds the number of containers. -/
theorem containersLeft_lt_depthBound (σ : Store) : σ.containersLeft [] < σ.depthBound := by
  have hle : σ.containersLeft [] ≤ σ.containers.length := List.length_filter_le _ _
  have hlength : σ.containers.length = σ.arrays.size + σ.maps.size := by
    simp [containers]
  unfold depthBound
  omega

/-- **Every value has a text.**  The depth to which containers may be entered does not matter, as
long as it is not less than the bound. -/
theorem render_of_le {d : Nat} (h : σ.depthBound ≤ d) (nested : Bool) (v : Value) :
    σ.render d [] nested v = σ.render σ.depthBound [] nested v := by
  have hleft := σ.containersLeft_lt_depthBound
  exact render_eq_render (Nat.lt_of_lt_of_le hleft h) hleft nested v

/-! ## Equality -/

/-- The comparisons of a store. -/
def comparisons (σ : Store) : List Comparison :=
  ((List.range σ.arrays.size).flatMap fun i =>
    (List.range σ.arrays.size).map fun j => .arrays ⟨i⟩ ⟨j⟩) ++
  ((List.range σ.maps.size).flatMap fun i =>
    (List.range σ.maps.size).map fun j => .maps ⟨i⟩ ⟨j⟩)

theorem arrays_mem_comparisons {a b : ArrayId} (ha : a.index < σ.arrays.size)
    (hb : b.index < σ.arrays.size) : .arrays a b ∈ σ.comparisons := by
  refine List.mem_append_left _ (List.mem_flatMap.mpr ⟨a.index, List.mem_range.mpr ha, ?_⟩)
  exact List.mem_map.mpr ⟨b.index, List.mem_range.mpr hb, rfl⟩

theorem maps_mem_comparisons {m n : MapId} (hm : m.index < σ.maps.size)
    (hn : n.index < σ.maps.size) : .maps m n ∈ σ.comparisons := by
  refine List.mem_append_right _ (List.mem_flatMap.mpr ⟨m.index, List.mem_range.mpr hm, ?_⟩)
  exact List.mem_map.mpr ⟨n.index, List.mem_range.mpr hn, rfl⟩

/-- The number of comparisons that are not under way. -/
def comparisonsLeft (σ : Store) (pending : List Comparison) : Nat :=
  (σ.comparisons.filter (· ∉ pending)).length

/-- Two bounds that exceed the number of comparisons left give the same result. -/
theorem equalWithin_eq_equalWithin {d d' : Nat} {pending : List Comparison}
    (h : σ.comparisonsLeft pending < d) (h' : σ.comparisonsLeft pending < d') (x y : Value) :
    σ.equalWithin d pending x y = σ.equalWithin d' pending x y := by
  induction d generalizing d' pending x y with
  | zero => exact absurd h (Nat.not_lt_zero _)
  | succ d ih =>
    obtain ⟨d', rfl⟩ : ∃ k, d' = k + 1 := ⟨d' - 1, by omega⟩
    cases x with
    | undefined | boolean _ | number _ | text _ | function _ => cases y <;> rfl
    | array a =>
      cases y with
      | undefined | boolean _ | number _ | text _ | function _ | map _ => rfl
      | array b =>
        by_cases hknown : a = b ∨ .arrays a b ∈ pending
        · simp only [equalWithin, if_pos hknown]
        · have hitems : ∀ p ∈ (σ.array a).toList.zip (σ.array b).toList,
              σ.equalWithin d (.arrays a b :: pending) p.1 p.2 =
                σ.equalWithin d' (.arrays a b :: pending) p.1 p.2 := by
            rintro ⟨v, w⟩ hp
            obtain ⟨hv, hw⟩ := List.of_mem_zip hp
            have hless : σ.comparisonsLeft (.arrays a b :: pending) < σ.comparisonsLeft pending :=
              length_filter_notMem_cons_lt
                (arrays_mem_comparisons (index_lt_of_mem_array hv) (index_lt_of_mem_array hw))
                fun hmem => hknown (.inr hmem)
            exact ih (by omega) (by omega) v w
          simp only [equalWithin, if_neg hknown, all_eq_all_of_mem hitems]
    | map m =>
      cases y with
      | undefined | boolean _ | number _ | text _ | function _ | array _ => rfl
      | map n =>
        by_cases hknown : m = n ∨ .maps m n ∈ pending
        · simp only [equalWithin, if_pos hknown]
        · simp only [equalWithin, if_neg hknown]
          refine congrArg (_ && ·) (all_eq_all_of_mem fun e he => ?_)
          cases hother : (σ.map n).get? e.1 with
          | none => rfl
          | some other =>
            have hless : σ.comparisonsLeft (.maps m n :: pending) < σ.comparisonsLeft pending :=
              length_filter_notMem_cons_lt
                (maps_mem_comparisons (index_lt_of_mem_map he) (index_lt_of_get? hother))
                fun hmem => hknown (.inr hmem)
            exact ih (by omega) (by omega) e.2 other

/-- The bound exceeds the number of comparisons. -/
theorem comparisonsLeft_lt_comparisonBound (σ : Store) :
    σ.comparisonsLeft [] < σ.comparisonBound := by
  have hle : σ.comparisonsLeft [] ≤ σ.comparisons.length := List.length_filter_le _ _
  have hlength : σ.comparisons.length =
      σ.arrays.size * σ.arrays.size + σ.maps.size * σ.maps.size := by
    simp only [comparisons, List.length_append, List.length_flatMap, List.length_map,
      List.length_range, List.map_const', List.sum_replicate_nat]
  unfold comparisonBound
  omega

/-- **Every two values can be compared.**  The depth to which containers may be entered does not
matter, as long as it is not less than the bound. -/
theorem equalWithin_of_le {d : Nat} (h : σ.comparisonBound ≤ d) (x y : Value) :
    σ.equalWithin d [] x y = σ.equalWithin σ.comparisonBound [] x y := by
  have hleft := σ.comparisonsLeft_lt_comparisonBound
  exact equalWithin_eq_equalWithin (Nat.lt_of_lt_of_le hleft h) hleft x y

/-! ## Names -/

/-- The scope around each scope is older than the scope. -/
def OuterOlder (σ : Store) : Prop :=
  ∀ s scope outer, σ.scope? s = some scope → scope.outer = some outer → outer.index < s.index

/-- **Every name can be looked up.**  If the scope around each scope is older, the number of scopes
that may be asked does not matter, as long as it is not less than the bound. -/
theorem resolveWithin_of_le (hσ : σ.OuterOlder) (name : String) {limit : Nat} {s : ScopeId}
    (h : s.index + 1 ≤ limit) : σ.resolveWithin name limit s = σ.resolve? s name := by
  unfold resolve?
  -- the induction is on the bound, which need not be the index of the scope on the way out
  generalize hk : s.index + 1 = k at h
  have hk' : s.index + 1 ≤ k := Nat.le_of_eq hk
  clear hk
  induction k generalizing limit s with
  | zero => exact absurd hk' (Nat.not_succ_le_zero _)
  | succ k ih =>
    obtain ⟨limit, rfl⟩ : ∃ l, limit = l + 1 := ⟨limit - 1, by omega⟩
    simp only [resolveWithin]
    cases hs : σ.scope? s with
    | none => rfl
    | some scope =>
      by_cases hbound : scope.bindings.contains name = true
      · simp only [if_pos hbound]
      · simp only [if_neg hbound]
        cases houter : scope.outer with
        | none => rfl
        | some outer =>
          have holder : outer.index < s.index := hσ s scope outer hs houter
          exact ih (by omega) (by omega)

end Store

end Script
