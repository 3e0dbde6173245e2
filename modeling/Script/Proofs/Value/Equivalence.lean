import Mathlib.Data.List.Perm.Subperm
import Script.Proofs.Number.Whole
import Script.Proofs.Value.Similarity

/-!
# Equality is an equivalence, but for NaN

The laws of equality are proved for one look at two values and then hold of equality itself, since
equality is the greatest relation whose members look alike: each law says that a relation made from
equality is contained in equality, and for this its members have to look alike.

Two points need an argument.  Two maps look alike if each key of the first one is a key of the
second one, which is the same the other way around because their sizes are the same.  And a
container is equal to itself even if it holds a NaN, so equality is reflexive on everything but a
NaN itself; this does not break transitivity, since a step from a container to itself leads nowhere.

## Main results

* `Number.beq_symm`, `Number.beq_trans`, `Number.beq_self_iff`: the laws of doubles.
* `Store.Alike.swap`, `Store.Alike.comp`: the laws of one look.
* `Store.equal_laws`: equality is symmetric, transitive, and reflexive but for NaN.
-/

namespace Script

/-! ## Doubles -/

namespace Number

open Float.Model (UnpackedFloat)

theorem beq_symm {x y : Float} (h : (x == y) = true) : (y == x) = true := by
  rw [beq_iff] at h ⊢
  obtain ⟨hx, hy, heq | ⟨hpos, hneg⟩ | ⟨hneg, hpos⟩⟩ := h
  · exact ⟨hy, hx, .inl heq.symm⟩
  · exact ⟨hy, hx, .inr (.inr ⟨hneg, hpos⟩)⟩
  · exact ⟨hy, hx, .inr (.inl ⟨hpos, hneg⟩)⟩

theorem beq_trans {x y z : Float} (hxy : (x == y) = true) (hyz : (y == z) = true) :
    (x == z) = true := by
  rw [beq_iff] at *
  grind

/-- A double is equal to itself unless it is NaN. -/
theorem beq_self_iff (x : Float) : (x == x) = true ↔ x.isNaN = false := by
  rw [beq_iff]
  show _ ↔ UnpackedFloat.isNaN x.toModel.unpack = false
  cases x.toModel.unpack with
  | notANumber =>
    constructor
    · intro h
      exact absurd rfl h.1
    · intro h
      cases h
  | infinity | zero | finite =>
    exact ⟨fun _ => rfl, fun _ => ⟨UnpackedFloat.noConfusion, UnpackedFloat.noConfusion, .inl rfl⟩⟩

end Number

/-! ## Maps of the same size -/

/-- If the keys of a dictionary are keys of another one of its size, both have the same keys. -/
theorem Dict.mem_keys_of_size_eq {α : Type} {d e : Dict α} (hsize : d.size = e.size)
    (h : d.keys ⊆ e.keys) {key : String} (hkey : key ∈ e.keys) : key ∈ d.keys := by
  have hlength : e.keys.length ≤ d.keys.length := by
    rw [d.length_keys, e.length_keys, hsize]
  have hperm : d.keys.Perm e.keys :=
    (List.subperm_of_subset d.keys_nodup h).perm_of_length_le hlength
  exact hperm.mem_iff.mpr hkey

namespace Store

variable {σ : Store} {R S T : Value → Value → Prop} {x y z : Value}

/-! ## One look -/

theorem Alike.swap (h : σ.Alike R x y) : σ.Alike (fun v w => R w v) y x := by
  cases h with
  | undefined => exact .undefined
  | boolean b => exact .boolean b
  | number h => exact .number (Number.beq_symm h)
  | text s => exact .text s
  | function f => exact .function f
  | sameArray a => exact .sameArray a
  | sameMap m => exact .sameMap m
  | arrays hsize hitems =>
    exact .arrays hsize.symm fun i v w hv hw => hitems i w v hw hv
  | @maps m n hsize hentries =>
    have hsubset : (σ.map m).keys ⊆ (σ.map n).keys := by
      intro key hkey
      obtain ⟨v, hv⟩ := Option.isSome_iff_exists.mp (Dict.contains_iff.mpr hkey)
      obtain ⟨w, hw, -⟩ := hentries key v hv
      exact Dict.contains_iff.mp (Option.isSome_iff_exists.mpr ⟨w, hw⟩)
    refine .maps hsize.symm fun key w hw => ?_
    have hkey : key ∈ (σ.map m).keys := Dict.mem_keys_of_size_eq hsize hsubset
      (Dict.contains_iff.mp (Option.isSome_iff_exists.mpr ⟨w, hw⟩))
    obtain ⟨v, hv⟩ := Option.isSome_iff_exists.mp (Dict.contains_iff.mpr hkey)
    obtain ⟨w', hw', hvw⟩ := hentries key v hv
    cases hw.symm.trans hw'
    exact ⟨v, hv, hvw⟩

/-- Two looks in a row.  If one of them is at a container and itself, only the other one says
something about the contents, so `T` has to contain both relations and not only what they make
together. -/
theorem Alike.comp (hR : R ≤ T) (hS : S ≤ T) (hcomp : ∀ u v w, R u v → S v w → T u w)
    (h : σ.Alike R x y) (h' : σ.Alike S y z) : σ.Alike T x z := by
  cases h with
  | undefined | boolean | text | function | sameArray | sameMap => exact h'.mono hS
  | number h =>
    cases h' with
    | number h' => exact .number (Number.beq_trans h h')
  | @arrays a b hsize hitems =>
    cases h' with
    | sameArray => exact .arrays hsize fun i v w hv hw => hR _ _ (hitems i v w hv hw)
    | @arrays _ c hsize' hitems' =>
      refine .arrays (hsize.trans hsize') fun i u w hu hw => ?_
      obtain ⟨hi, -⟩ := Array.getElem?_eq_some_iff.mp hu
      have hv : (σ.array b)[i]? = some (σ.array b)[i] := Array.getElem?_eq_getElem (hsize ▸ hi)
      exact hcomp _ _ _ (hitems i _ _ hu hv) (hitems' i _ _ hv hw)
  | @maps m n hsize hentries =>
    cases h' with
    | sameMap =>
      refine .maps hsize fun key u hu => ?_
      obtain ⟨w, hw, huw⟩ := hentries key u hu
      exact ⟨w, hw, hR _ _ huw⟩
    | maps hsize' hentries' =>
      refine .maps (hsize.trans hsize') fun key u hu => ?_
      obtain ⟨v, hv, huv⟩ := hentries key u hu
      obtain ⟨w, hw, hvw⟩ := hentries' key v hv
      exact ⟨w, hw, hcomp _ _ _ huv hvw⟩

/-- A value looks like itself unless it is a NaN. -/
theorem alike_self_iff {v : Value} :
    σ.Alike R v v ↔ ∀ x, v = .number x → x.isNaN = false := by
  constructor
  · rintro h x rfl
    cases h with
    | number h => exact (Number.beq_self_iff x).mp h
  · intro h
    cases v with
    | undefined => exact .undefined
    | boolean b => exact .boolean b
    | number x => exact .number ((Number.beq_self_iff x).mpr (h x rfl))
    | text s => exact .text s
    | array a => exact .sameArray a
    | map m => exact .sameMap m
    | function f => exact .function f

/-! ## Equality -/

theorem equal_symm (h : σ.equal x y = true) : σ.equal y x = true := by
  have hswap : (fun v w => σ.equal w v = true) ≤ σ.Alike fun v w => σ.equal w v = true :=
    fun v w hvw => (alike_of_equal hvw).swap
  exact equal_of_le_alike hswap h

/-- Values that are equal, at once or by way of a third one. -/
def EqualVia (σ : Store) (u w : Value) : Prop :=
  σ.equal u w = true ∨ ∃ v, σ.equal u v = true ∧ σ.equal v w = true

theorem equalVia_le_alike : σ.EqualVia ≤ σ.Alike σ.EqualVia := by
  have honce : (fun u w => σ.equal u w = true) ≤ σ.EqualVia := fun u w h => .inl h
  rintro u w (h | ⟨v, huv, hvw⟩)
  · exact (alike_of_equal h).mono honce
  · exact Alike.comp honce honce (fun _ v _ h h' => .inr ⟨v, h, h'⟩) (alike_of_equal huv)
      (alike_of_equal hvw)

theorem equal_trans (hxy : σ.equal x y = true) (hyz : σ.equal y z = true) :
    σ.equal x z = true := by
  exact equal_of_le_alike equalVia_le_alike (.inr ⟨y, hxy, hyz⟩)

theorem equal_self_iff {v : Value} :
    σ.equal v v = true ↔ ∀ x, v = .number x → x.isNaN = false := by
  constructor
  · intro h
    exact alike_self_iff.mp (alike_of_equal h)
  · intro h
    have hself : (fun u w => u = v ∧ w = v) ≤ σ.Alike fun u w => u = v ∧ w = v := by
      rintro _ _ ⟨rfl, rfl⟩
      exact alike_self_iff.mpr h
    exact equal_of_le_alike hself ⟨rfl, rfl⟩

/-- **Equality is an equivalence, but for NaN.**  On every store it is symmetric and transitive, and
every value is equal to itself but a NaN. -/
theorem equal_laws (σ : Store) :
    (∀ x y, σ.equal x y = σ.equal y x) ∧
      (∀ x y z, σ.equal x y = true → σ.equal y z = true → σ.equal x z = true) ∧
      ∀ v, σ.equal v v = true ↔ ∀ x, v = .number x → x.isNaN = false := by
  refine ⟨fun x y => ?_, fun x y z hxy hyz => equal_trans hxy hyz, fun v => equal_self_iff⟩
  rw [Bool.eq_iff_iff]
  exact ⟨equal_symm, equal_symm⟩

/-- An array that holds a NaN is equal to itself and to no other array, in either order. -/
example :
    let nan : Value := .number (0 / 0)
    let σ : Store := ⟨#[#[nan], #[nan]], #[], #[], #[]⟩
    σ.equal nan nan = false ∧ σ.equal (.array ⟨0⟩) (.array ⟨0⟩) = true ∧
      σ.equal (.array ⟨0⟩) (.array ⟨1⟩) = false ∧ σ.equal (.array ⟨1⟩) (.array ⟨0⟩) = false := by
  decide

end Store

end Script
