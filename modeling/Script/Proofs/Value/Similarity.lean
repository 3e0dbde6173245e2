import Mathlib.Order.Bounds.Basic
import Script.Proofs.Value.Bounds

/-!
# Equality decides similarity

Two values are similar if no look at them, however deep, shows a difference.  A look at two
containers goes on to their contents, and containers may contain themselves, so similarity is not
defined by recursion: it is the greatest relation whose members look alike, and the same relation in
the contents of what looks alike.

Equality walks through both values at once and takes every comparison that is under way for true.
This is no mistake.  Differences have a depth.  If the comparisons under way show none within
`k + 1` looks, and two values are found equal, the values show none within `k` looks; so their own
comparison can join those under way while their contents are compared, which need to agree within
`k` looks only.  Comparisons that are done with are not under way any more, and none of this is
about them.

## Main definitions

* `Store.Alike`: one look at two values.
* `Store.Near`: no difference shows within a number of looks.
* `Store.Compares`: the runs of the comparison, with the answers that they come to.

## Main results

* `Store.near_of_equalWithin`: what is found equal shows no difference, if the comparisons under way
  show none.
* `Store.equal_iff_near`: equal values are those that never show a difference.
* `Store.compares_iff`: every comparison has one run.
* `Store.equal_decides_similarity`: equality is the greatest relation whose members look alike.
-/

namespace Script

/-- Whether two values are equal that are not both arrays and not both maps. -/
def Value.sameScalar : Value → Value → Bool
  | .undefined, .undefined => true
  | .boolean a, .boolean b => a == b
  | .number x, .number y => x == y
  | .text s, .text t => s == t
  | .function f, .function g => f == g
  | _, _ => false

namespace Comparison

/-- The first of the two containers. -/
def left : Comparison → Value
  | .arrays a _ => .array a
  | .maps m _ => .map m

/-- The second of the two containers. -/
def right : Comparison → Value
  | .arrays _ b => .array b
  | .maps _ n => .map n

/-- The comparison that two values call for, if both are arrays or both are maps. -/
def between? : Value → Value → Option Comparison
  | .array a, .array b => some (.arrays a b)
  | .map m, .map n => some (.maps m n)
  | _, _ => none

/-- The comparison is that of a container with itself. -/
def IsSelf : Comparison → Prop
  | .arrays a b => a = b
  | .maps m n => m = n

/-- The answer is at hand: both containers are the same one, or their comparison is under way. -/
def Known (pending : List Comparison) (c : Comparison) : Prop := c.IsSelf ∨ c ∈ pending

theorem between?_eq_some_iff {x y : Value} {c : Comparison} :
    between? x y = some c ↔ x = c.left ∧ y = c.right := by
  constructor
  · intro h
    unfold between? at h
    split at h
    · cases h
      exact ⟨rfl, rfl⟩
    · cases h
      exact ⟨rfl, rfl⟩
    · cases h
  · rintro ⟨rfl, rfl⟩
    cases c <;> rfl

end Comparison

namespace Store

variable {σ : Store} {R S : Value → Value → Prop} {pending : List Comparison} {x y : Value}
  {c : Comparison} {parts : List (Value × Option Value)} {d k : Nat}

/-! ## One look at two values -/

/-- **One look at two values.**  They are the same, or containers of the same size whose contents
are in the relation `R`: items at the same index, and entries under the same key. -/
inductive Alike (σ : Store) (R : Value → Value → Prop) : Value → Value → Prop
  | undefined : Alike σ R .undefined .undefined
  | boolean (b : Bool) : Alike σ R (.boolean b) (.boolean b)
  | number {x y : Float} (h : (x == y) = true) : Alike σ R (.number x) (.number y)
  | text (s : String) : Alike σ R (.text s) (.text s)
  | function (f : FunctionId) : Alike σ R (.function f) (.function f)
  | sameArray (a : ArrayId) : Alike σ R (.array a) (.array a)
  | sameMap (m : MapId) : Alike σ R (.map m) (.map m)
  | arrays {a b : ArrayId} (hsize : (σ.array a).size = (σ.array b).size)
      (hitems : ∀ (i : Nat) v w, (σ.array a)[i]? = some v → (σ.array b)[i]? = some w → R v w) :
      Alike σ R (.array a) (.array b)
  | maps {m n : MapId} (hsize : (σ.map m).size = (σ.map n).size)
      (hentries : ∀ key v, (σ.map m).get? key = some v →
        ∃ w, (σ.map n).get? key = some w ∧ R v w) :
      Alike σ R (.map m) (.map n)

theorem Alike.mono (h : σ.Alike R x y) (hRS : R ≤ S) : σ.Alike S x y := by
  cases h with
  | undefined => exact .undefined
  | boolean b => exact .boolean b
  | number h => exact .number h
  | text s => exact .text s
  | function f => exact .function f
  | sameArray a => exact .sameArray a
  | sameMap m => exact .sameMap m
  | arrays hsize hitems => exact .arrays hsize fun i v w hv hw => hRS _ _ (hitems i v w hv hw)
  | maps hsize hentries =>
    refine .maps hsize fun key v hv => ?_
    obtain ⟨w, hw, hvw⟩ := hentries key v hv
    exact ⟨w, hw, hRS _ _ hvw⟩

/-- What two containers of the same size have to agree in: each part of the first one, and its
counterpart in the second one, if there is one.  There is no answer if the sizes differ. -/
def parts? (σ : Store) : Comparison → Option (List (Value × Option Value))
  | .arrays a b =>
    if (σ.array a).size = (σ.array b).size then
      some (((σ.array a).toList.zip (σ.array b).toList).map fun p => (p.1, some p.2))
    else none
  | .maps m n =>
    if (σ.map m).size = (σ.map n).size then
      some ((σ.map m).entries.map fun e => (e.2, (σ.map n).get? e.1))
    else none

/-- Each part has a counterpart, and `R` holds between them. -/
def Matched (R : Value → Value → Prop) (parts : List (Value × Option Value)) : Prop :=
  ∀ p ∈ parts, ∃ w, p.2 = some w ∧ R p.1 w

/-- Between values that are not two arrays or two maps, one look decides. -/
theorem alike_iff_sameScalar (h : Comparison.between? x y = none) :
    σ.Alike R x y ↔ x.sameScalar y = true := by
  constructor
  · intro halike
    cases halike with
    | undefined => rfl
    | boolean b => exact beq_self_eq_true b
    | number hxy => exact hxy
    | text s => exact beq_self_eq_true s
    | function f => exact beq_self_eq_true f
    | sameArray | sameMap | arrays | maps => cases h
  · intro hsame
    unfold Value.sameScalar at hsame
    split at hsame
    · exact .undefined
    · exact beq_iff_eq.mp hsame ▸ .boolean _
    · exact .number hsame
    · exact beq_iff_eq.mp hsame ▸ .text _
    · exact beq_iff_eq.mp hsame ▸ .function _
    · cases hsame

/-- Two containers look alike if they are the same one, or if their sizes are the same and their
parts match. -/
theorem alike_iff_matched : σ.Alike R c.left c.right ↔
    c.IsSelf ∨ ∃ parts, σ.parts? c = some parts ∧ Matched R parts := by
  cases c with
  | arrays a b =>
    constructor
    · intro h
      cases h with
      | sameArray => exact .inl rfl
      | arrays hsize hitems =>
        refine .inr ⟨_, if_pos hsize, fun p hp => ?_⟩
        obtain ⟨⟨v, w⟩, hvw, rfl⟩ := List.mem_map.mp hp
        obtain ⟨i, hi⟩ := List.mem_iff_getElem?.mp hvw
        rw [List.getElem?_zip_eq_some, Array.getElem?_toList, Array.getElem?_toList] at hi
        exact ⟨w, rfl, hitems i v w hi.1 hi.2⟩
    · rintro (hself | ⟨parts, hparts, hmatched⟩)
      · cases (show a = b from hself)
        exact .sameArray a
      · obtain ⟨hsize, rfl⟩ : (σ.array a).size = (σ.array b).size ∧ _ := by
          simpa [parts?] using hparts
        refine .arrays hsize fun i v w hv hw => ?_
        have hmem : (v, w) ∈ (σ.array a).toList.zip (σ.array b).toList := by
          refine List.mem_iff_getElem?.mpr ⟨i, ?_⟩
          rw [List.getElem?_zip_eq_some, Array.getElem?_toList, Array.getElem?_toList]
          exact ⟨hv, hw⟩
        obtain ⟨w', hw', hR⟩ := hmatched _ (List.mem_map_of_mem hmem)
        cases hw'
        exact hR
  | maps m n =>
    constructor
    · intro h
      cases h with
      | sameMap => exact .inl rfl
      | maps hsize hentries =>
        refine .inr ⟨_, if_pos hsize, fun p hp => ?_⟩
        obtain ⟨e, he, rfl⟩ := List.mem_map.mp hp
        exact hentries e.1 e.2 (Dict.get?_of_mem he)
    · rintro (hself | ⟨parts, hparts, hmatched⟩)
      · cases (show m = n from hself)
        exact .sameMap m
      · obtain ⟨hsize, rfl⟩ : (σ.map m).size = (σ.map n).size ∧ _ := by
          simpa [parts?] using hparts
        refine .maps hsize fun key v hv => ?_
        exact hmatched _ (List.mem_map_of_mem (Dict.mem_of_get? hv))

/-! ## Differences have a depth -/

/-- No difference between the values shows within `k` looks. -/
def Near (σ : Store) : Nat → Value → Value → Prop
  | 0 => ⊤
  | k + 1 => σ.Alike (σ.Near k)

theorem near_of_near_succ (h : σ.Near (k + 1) x y) : σ.Near k x y := by
  induction k generalizing x y with
  | zero => trivial
  | succ k ih => exact Alike.mono h fun v w hvw => ih hvw

/-- Parts that match within any number of looks match once and for all: the counterpart of a part
is always the same. -/
theorem matched_forall_near (h : ∀ k, Matched (σ.Near k) parts) :
    Matched (fun v w => ∀ k, σ.Near k v w) parts := by
  intro p hp
  obtain ⟨w, hw, -⟩ := h 0 p hp
  refine ⟨w, hw, fun k => ?_⟩
  obtain ⟨w', hw', hnear⟩ := h k p hp
  cases hw.symm.trans hw'
  exact hnear

/-- Values that never show a difference look alike, and so do their contents. -/
theorem alike_forall_near (h : ∀ k, σ.Near k x y) :
    σ.Alike (fun v w => ∀ k, σ.Near k v w) x y := by
  cases hc : Comparison.between? x y with
  | none => exact (alike_iff_sameScalar hc).mpr ((alike_iff_sameScalar hc).mp (h 1))
  | some c =>
    obtain ⟨rfl, rfl⟩ := Comparison.between?_eq_some_iff.mp hc
    have hlook : ∀ k, c.IsSelf ∨ ∃ parts, σ.parts? c = some parts ∧ Matched (σ.Near k) parts :=
      fun k => alike_iff_matched.mp (h (k + 1))
    refine alike_iff_matched.mpr ?_
    rcases hlook 0 with hself | ⟨parts, hparts, -⟩
    · exact .inl hself
    · refine or_iff_not_imp_left.mpr fun hself => ⟨parts, hparts, matched_forall_near fun k => ?_⟩
      obtain ⟨parts', hparts', hmatched⟩ := (hlook k).resolve_left hself
      cases hparts.symm.trans hparts'
      exact hmatched

/-- If the members of a relation look alike, they never show a difference. -/
theorem near_of_le_alike (h : R ≤ σ.Alike R) (hxy : R x y) (k : Nat) : σ.Near k x y := by
  induction k generalizing x y with
  | zero => trivial
  | succ k ih => exact (h x y hxy).mono fun v w hvw => ih hvw

/-! ## The comparison -/

/-- Whether each part has a counterpart that passes a test. -/
def allMatch (test : Value → Value → Bool) (parts : List (Value × Option Value)) : Bool :=
  parts.all fun p => p.2.any (test p.1)

theorem allMatch_iff {test : Value → Value → Bool} :
    allMatch test parts = true ↔ Matched (fun v w => test v w = true) parts := by
  simp only [allMatch, Matched, List.all_eq_true, Option.any_eq_true]

theorem equalWithin_scalars (h : Comparison.between? x y = none) :
    σ.equalWithin d pending x y = x.sameScalar y := by
  cases x with
  | undefined | boolean | number | text | function => cases y <;> cases d <;> rfl
  | array a => cases y <;> first | cases d <;> rfl | cases h
  | map m => cases y <;> first | cases d <;> rfl | cases h

theorem equalWithin_zero (c : Comparison) : σ.equalWithin 0 pending c.left c.right = true := by
  cases c <;> rfl

theorem equalWithin_of_known (h : c.Known pending) :
    σ.equalWithin (d + 1) pending c.left c.right = true := by
  cases c with
  | arrays a b => exact if_pos h
  | maps m n => exact if_pos h

/-- Containers are compared part by part. -/
theorem equalWithin_parts (h : ¬ c.Known pending) :
    σ.equalWithin (d + 1) pending c.left c.right =
      (σ.parts? c).any (allMatch (σ.equalWithin d (c :: pending))) := by
  cases c with
  | arrays a b =>
    refine (if_neg h).trans ?_
    by_cases hsize : (σ.array a).size = (σ.array b).size
    · simp [parts?, hsize, allMatch, List.all_map, Function.comp_def]
    · simp [parts?, hsize]
  | maps m n =>
    refine (if_neg h).trans ?_
    by_cases hsize : (σ.map m).size = (σ.map n).size
    · simp only [parts?, hsize, allMatch, List.all_map, Function.comp_def, beq_self_eq_true,
        Bool.true_and, if_true, Option.any_some]
      refine all_eq_all_of_mem fun e _ => ?_
      cases (σ.map n).get? e.1 <;> rfl
    · simp [parts?, hsize]

/-- Containers that are not known to be equal are found equal if their parts are. -/
theorem equalWithin_parts_iff (h : ¬ c.Known pending) :
    σ.equalWithin (d + 1) pending c.left c.right = true ↔ ∃ parts, σ.parts? c = some parts ∧
      Matched (fun v w => σ.equalWithin d (c :: pending) v w = true) parts := by
  rw [equalWithin_parts h, Option.any_eq_true]
  exact exists_congr fun parts => and_congr_right fun _ => allMatch_iff

/-- **No difference is seen where there is none.** -/
theorem equalWithin_of_near (h : σ.Near (d + 1) x y) : σ.equalWithin d pending x y = true := by
  induction d generalizing pending x y with
  | zero =>
    cases hc : Comparison.between? x y with
    | none => exact (equalWithin_scalars hc).trans ((alike_iff_sameScalar hc).mp h)
    | some c =>
      obtain ⟨rfl, rfl⟩ := Comparison.between?_eq_some_iff.mp hc
      exact equalWithin_zero c
  | succ d ih =>
    cases hc : Comparison.between? x y with
    | none => exact (equalWithin_scalars hc).trans ((alike_iff_sameScalar hc).mp h)
    | some c =>
      obtain ⟨rfl, rfl⟩ := Comparison.between?_eq_some_iff.mp hc
      by_cases hknown : c.Known pending
      · exact equalWithin_of_known hknown
      · obtain ⟨parts, hparts, hmatched⟩ :=
          (alike_iff_matched.mp h).resolve_left fun hself => hknown (.inl hself)
        refine (equalWithin_parts_iff hknown).mpr ⟨parts, hparts, fun p hp => ?_⟩
        obtain ⟨w, hw, hnear⟩ := hmatched p hp
        exact ⟨w, hw, ih hnear⟩

/-- **No difference is missed.**  If the comparisons under way show no difference within `k` looks,
neither do two values that are found equal. -/
theorem near_of_equalWithin (hpending : ∀ c ∈ pending, σ.Near k c.left c.right) (hk : k ≤ d)
    (h : σ.equalWithin d pending x y = true) : σ.Near k x y := by
  induction k generalizing d pending x y with
  | zero => trivial
  | succ k ih =>
    obtain ⟨d, rfl⟩ : ∃ n, d = n + 1 := ⟨d - 1, by omega⟩
    have hbefore : ∀ c ∈ pending, σ.Near k c.left c.right :=
      fun c hc => near_of_near_succ (hpending c hc)
    cases hc : Comparison.between? x y with
    | none =>
      rw [equalWithin_scalars hc] at h
      exact (alike_iff_sameScalar hc).mpr h
    | some c =>
      -- one look less far, the values agree already: their comparison can join those under way
      have hnear : σ.Near k x y := ih hbefore (by omega) h
      obtain ⟨rfl, rfl⟩ := Comparison.between?_eq_some_iff.mp hc
      by_cases hknown : c.Known pending
      · rcases hknown with hself | hmem
        · exact alike_iff_matched.mpr (.inl hself)
        · exact hpending c hmem
      · obtain ⟨parts, hparts, hmatched⟩ := (equalWithin_parts_iff hknown).mp h
        refine alike_iff_matched.mpr (.inr ⟨parts, hparts, fun p hp => ?_⟩)
        obtain ⟨w, hw, hequal⟩ := hmatched p hp
        exact ⟨w, hw, ih (List.forall_mem_cons.mpr ⟨hnear, hbefore⟩) (by omega) hequal⟩

/-- **Equal values are those that never show a difference.** -/
theorem equal_iff_near : σ.equal x y = true ↔ ∀ k, σ.Near k x y := by
  constructor
  · intro h k
    have hdeep : σ.equalWithin (σ.comparisonBound + k) [] x y = true :=
      (equalWithin_of_le (Nat.le_add_right _ _) x y).trans h
    have hnone : ∀ c ∈ ([] : List Comparison), σ.Near k c.left c.right := by simp
    exact near_of_equalWithin hnone (Nat.le_add_left _ _) hdeep
  · intro h
    exact equalWithin_of_near (h _)

/-! ## Runs -/

mutual

/-- **The runs of the comparison** of two values, given the comparisons under way, and the answers
that they come to. -/
inductive Compares (σ : Store) : List Comparison → Value → Value → Bool → Prop
  | scalars {pending : List Comparison} {x y : Value} (h : Comparison.between? x y = none) :
      Compares σ pending x y (x.sameScalar y)
  | known {pending : List Comparison} {x y : Value} {c : Comparison}
      (h : Comparison.between? x y = some c) (hknown : c.Known pending) :
      Compares σ pending x y true
  | sizes {pending : List Comparison} {x y : Value} {c : Comparison}
      (h : Comparison.between? x y = some c) (hnew : ¬ c.Known pending)
      (hparts : σ.parts? c = none) : Compares σ pending x y false
  | contents {pending : List Comparison} {x y : Value} {c : Comparison}
      {parts : List (Value × Option Value)} {answer : Bool}
      (h : Comparison.between? x y = some c) (hnew : ¬ c.Known pending)
      (hparts : σ.parts? c = some parts) (hrun : ComparesAll σ (c :: pending) parts answer) :
      Compares σ pending x y answer

/-- The runs over the parts of two containers, up to the first difference. -/
inductive ComparesAll (σ : Store) :
    List Comparison → List (Value × Option Value) → Bool → Prop
  | done {pending : List Comparison} : ComparesAll σ pending [] true
  | missing {pending : List Comparison} {v : Value} {rest : List (Value × Option Value)} :
      ComparesAll σ pending ((v, none) :: rest) false
  | different {pending : List Comparison} {v w : Value} {rest : List (Value × Option Value)}
      (hrun : Compares σ pending v w false) : ComparesAll σ pending ((v, some w) :: rest) false
  | next {pending : List Comparison} {v w : Value} {rest : List (Value × Option Value)}
      {answer : Bool} (hrun : Compares σ pending v w true)
      (hrest : ComparesAll σ pending rest answer) :
      ComparesAll σ pending ((v, some w) :: rest) answer

end

/-- Only containers of the store have parts with counterparts. -/
theorem mem_comparisons_of_part (hparts : σ.parts? c = some parts) {v w : Value}
    (hmem : (v, some w) ∈ parts) : c ∈ σ.comparisons := by
  cases c with
  | arrays a b =>
    obtain ⟨-, rfl⟩ : (σ.array a).size = (σ.array b).size ∧ _ := by simpa [parts?] using hparts
    obtain ⟨p, hp, -⟩ := List.mem_map.mp hmem
    obtain ⟨ha, hb⟩ := List.of_mem_zip hp
    exact arrays_mem_comparisons (index_lt_of_mem_array ha) (index_lt_of_mem_array hb)
  | maps m n =>
    obtain ⟨-, rfl⟩ : (σ.map m).size = (σ.map n).size ∧ _ := by simpa [parts?] using hparts
    obtain ⟨e, he, heq⟩ := List.mem_map.mp hmem
    have hother : (σ.map n).get? e.1 = some w := congrArg Prod.snd heq
    exact maps_mem_comparisons (index_lt_of_mem_map he) (index_lt_of_get? hother)

/-- If every two values have a run, so do the parts of two containers. -/
theorem comparesAll_allMatch {test : Value → Value → Bool}
    (h : ∀ v w, (v, some w) ∈ parts → σ.Compares pending v w (test v w)) :
    σ.ComparesAll pending parts (allMatch test parts) := by
  induction parts with
  | nil => exact .done
  | cons p parts ih =>
    obtain ⟨v, _ | w⟩ := p
    · exact .missing
    · have hfirst : σ.Compares pending v w (test v w) := h v w List.mem_cons_self
      have hrest : σ.ComparesAll pending parts (allMatch test parts) :=
        ih fun v' w' hmem => h v' w' (List.mem_cons_of_mem _ hmem)
      have hstep : allMatch test ((v, some w) :: parts) = (test v w && allMatch test parts) := rfl
      rw [hstep]
      cases htest : test v w with
      | false => exact .different (htest ▸ hfirst)
      | true => exact .next (htest ▸ hfirst) hrest

/-- **Every comparison comes to an end**: with each pair of containers that is entered, fewer
comparisons are left. -/
theorem compares_equalWithin (hd : σ.comparisonsLeft pending < d) (x y : Value) :
    σ.Compares pending x y (σ.equalWithin d pending x y) := by
  induction d generalizing pending x y with
  | zero => exact absurd hd (Nat.not_lt_zero _)
  | succ d ih =>
    cases hc : Comparison.between? x y with
    | none =>
      rw [equalWithin_scalars hc]
      exact .scalars hc
    | some c =>
      obtain ⟨rfl, rfl⟩ := Comparison.between?_eq_some_iff.mp hc
      by_cases hknown : c.Known pending
      · rw [equalWithin_of_known hknown]
        exact .known hc hknown
      rw [equalWithin_parts hknown]
      cases hparts : σ.parts? c with
      | none => exact .sizes hc hknown hparts
      | some parts =>
        refine .contents hc hknown hparts (comparesAll_allMatch fun v w hmem => ih ?_ v w)
        have hless : σ.comparisonsLeft (c :: pending) < σ.comparisonsLeft pending :=
          length_filter_notMem_cons_lt (mem_comparisons_of_part hparts hmem)
            fun hold => hknown (.inr hold)
        omega

mutual

/-- Two runs of a comparison come to the same answer. -/
theorem Compares.unique {pending : List Comparison} {x y : Value} {answer answer' : Bool} :
    σ.Compares pending x y answer → σ.Compares pending x y answer' → answer = answer'
  | .scalars h, h' => by
    cases h' with
    | scalars => rfl
    | known hc | sizes hc | contents hc => cases h.symm.trans hc
  | .known h hknown, h' => by
    cases h' with
    | scalars hc => cases hc.symm.trans h
    | known => rfl
    | sizes hc hnew | contents hc hnew =>
      cases h.symm.trans hc
      exact absurd hknown hnew
  | .sizes h hnew hparts, h' => by
    cases h' with
    | scalars hc => cases hc.symm.trans h
    | known hc hknown =>
      cases h.symm.trans hc
      exact absurd hknown hnew
    | sizes => rfl
    | contents hc _ hparts' =>
      cases h.symm.trans hc
      cases hparts.symm.trans hparts'
  | .contents h hnew hparts hrun, h' => by
    cases h' with
    | scalars hc => cases hc.symm.trans h
    | known hc hknown =>
      cases h.symm.trans hc
      exact absurd hknown hnew
    | sizes hc _ hparts' =>
      cases h.symm.trans hc
      cases hparts.symm.trans hparts'
    | contents hc _ hparts' hrun' =>
      cases h.symm.trans hc
      cases hparts.symm.trans hparts'
      exact hrun.unique hrun'

theorem ComparesAll.unique {pending : List Comparison} {parts : List (Value × Option Value)}
    {answer answer' : Bool} : σ.ComparesAll pending parts answer →
      σ.ComparesAll pending parts answer' → answer = answer'
  | .done, h' => by
    cases h'
    rfl
  | .missing, h' => by
    cases h'
    rfl
  | .different hrun, h' => by
    cases h' with
    | different => rfl
    | next hrun' => cases hrun.unique hrun'
  | .next hrun hrest, h' => by
    cases h' with
    | different hrun' => cases hrun.unique hrun'
    | next _ hrest' => exact hrest.unique hrest'

end

/-- Every comparison has one run, and its answer is that of equality. -/
theorem compares_iff {answer : Bool} :
    σ.Compares [] x y answer ↔ answer = σ.equal x y := by
  have hrun : σ.Compares [] x y (σ.equal x y) :=
    compares_equalWithin σ.comparisonsLeft_lt_comparisonBound x y
  constructor
  · intro h
    exact h.unique hrun
  · rintro rfl
    exact hrun

/-! ## The greatest relation -/

/-- Equal values look alike, and what they contain is equal. -/
theorem alike_of_equal (h : σ.equal x y = true) :
    σ.Alike (fun v w => σ.equal v w = true) x y := by
  refine (alike_forall_near (equal_iff_near.mp h)).mono fun v w hvw => ?_
  exact equal_iff_near.mpr hvw

/-- If the members of a relation look alike, they are equal. -/
theorem equal_of_le_alike (h : R ≤ σ.Alike R) (hxy : R x y) : σ.equal x y = true :=
  equal_iff_near.mpr (near_of_le_alike h hxy)

/-- **Equality decides similarity.**  Every comparison of two values comes to an end, with the
answer of equality, and equality is the greatest relation whose members look alike. -/
theorem equal_decides_similarity (σ : Store) :
    (∀ x y answer, σ.Compares [] x y answer ↔ answer = σ.equal x y) ∧
      IsGreatest {R | ∀ x y, R x y → σ.Alike R x y} (fun x y => σ.equal x y = true) := by
  refine ⟨fun x y answer => compares_iff, fun x y h => alike_of_equal h, ?_⟩
  intro R hR x y hxy
  exact equal_of_le_alike hR hxy

/-- Two arrays that each hold themselves are equal, unless something else in them differs. -/
example :
    let σ : Store := ⟨#[#[.boolean true, .array ⟨0⟩], #[.boolean true, .array ⟨1⟩],
      #[.boolean false, .array ⟨2⟩]], #[], #[], #[]⟩
    σ.equal (.array ⟨0⟩) (.array ⟨1⟩) = true ∧ σ.equal (.array ⟨0⟩) (.array ⟨2⟩) = false := by
  decide

end Store

end Script
