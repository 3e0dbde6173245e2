import Script.Value.Store

/-!
# Equality of values

Arrays and maps are equal if their contents are.  Functions are equal if they are the same object.
A comparison of two containers that comes back to the same pair takes them for equal there, so that
containers that contain themselves can be compared.
-/

namespace Script

/-- Two containers that are being compared. -/
inductive Comparison where
  | arrays (left right : ArrayId)
  | maps (left right : MapId)
  deriving DecidableEq, Repr

namespace Store

/-- Whether two values are equal, given the comparisons that are under way.  Containers are entered
at most `depth` deep. -/
def equalWithin (σ : Store) :
    (depth : Nat) → (pending : List Comparison) → Value → Value → Bool
  | _, _, .undefined, .undefined => true
  | _, _, .boolean a, .boolean b => a == b
  | _, _, .number x, .number y => x == y
  | _, _, .text s, .text t => s == t
  | _, _, .function f, .function g => f == g
  | 0, _, .array _, .array _ => true
  | 0, _, .map _, .map _ => true
  | depth + 1, pending, .array a, .array b =>
    if a = b ∨ .arrays a b ∈ pending then true
    else
      let xs := (σ.array a).toList
      let ys := (σ.array b).toList
      xs.length == ys.length &&
        (xs.zip ys).all fun p => σ.equalWithin depth (.arrays a b :: pending) p.1 p.2
  | depth + 1, pending, .map m, .map n =>
    if m = n ∨ .maps m n ∈ pending then true
    else
      let d := σ.map m
      let e := σ.map n
      d.size == e.size &&
        d.entries.all fun entry =>
          match e.get? entry.1 with
          | some other => σ.equalWithin depth (.maps m n :: pending) entry.2 other
          | none => false
  | _, _, _, _ => false

/-- A depth that no chain of different comparisons exceeds. -/
def comparisonBound (σ : Store) : Nat :=
  σ.arrays.size * σ.arrays.size + σ.maps.size * σ.maps.size + 2

/-- Whether two values are equal. -/
def equal (σ : Store) (x y : Value) : Bool := σ.equalWithin σ.comparisonBound [] x y

end Store

end Script
