/-!
# The fewest decimal digits that identify a double

Every real number in a certain interval around a double rounds to that double.  Of the decimals in
the interval, the ones with the fewest digits are the natural way to write it down, and among these
the nearest to the double is taken.

The search goes through the decimal grids from coarse to fine.  If a grid has a point in the
interval at all, one of the two grid points next to the double is in it, so only these two are
tried.  All comparisons are made between integers.
-/

namespace Script.Shortest

/-- A positive double and the interval of reals that round to it, all three as numerators over the
common denominator `scale`.  The ends belong to the interval iff `closed` holds. -/
structure Interval where
  low : Nat
  value : Nat
  high : Nat
  scale : Nat
  closed : Bool
  deriving DecidableEq, Repr

/-- The interval around `mantissa * 2 ^ exponent`.  It reaches half way to the two neighbouring
doubles; below a power of two the neighbour is only half as far away, `least` excepted, which is the
exponent of the smallest doubles.  A half-way point rounds to the even mantissa. -/
def Interval.around (mantissa : Nat) (exponent least : Int) : Interval :=
  let down := if mantissa = Nat.pow 2 52 && exponent ≠ least then 1 else 2
  let closed := mantissa % 2 = 0
  match exponent - 2 with
  | .ofNat e =>
    ⟨(4 * mantissa - down) * Nat.pow 2 e, 4 * mantissa * Nat.pow 2 e,
      (4 * mantissa + 2) * Nat.pow 2 e, 1, closed⟩
  | .negSucc e => ⟨4 * mantissa - down, 4 * mantissa, 4 * mantissa + 2, Nat.pow 2 (e + 1), closed⟩

/-- The same interval in units of `10 ^ power`. -/
def Interval.inUnits (i : Interval) (power : Int) : Interval :=
  match power with
  | .ofNat p => { i with scale := i.scale * Nat.pow 10 p }
  | .negSucc p =>
    { i with
      low := i.low * Nat.pow 10 (p + 1)
      value := i.value * Nat.pow 10 (p + 1)
      high := i.high * Nat.pow 10 (p + 1) }

/-- Whether the integer `n` lies in the interval. -/
def Interval.contains (i : Interval) (n : Nat) : Bool :=
  let x := n * i.scale
  if i.closed then i.low ≤ x && x ≤ i.high else i.low < x && x < i.high

/-- The integer in the interval that is nearest to its value, of the two integers next to the value.
If they are equally near, it is the greater one. -/
def Interval.nearest? (i : Interval) : Option Nat :=
  let below := i.value / i.scale
  let above := below + 1
  match i.contains below, i.contains above with
  | true, true =>
    if above * i.scale - i.value ≤ i.value - below * i.scale then some above else some below
  | true, false => some below
  | false, true => some above
  | false, false => none

/-- The number of decimal digits of a positive integer. -/
def decimalLength (n : Nat) : Nat := (Nat.toDigits 10 n).length

/-- A power of ten that is not greater than the value, and not less than a hundredth of it. -/
def Interval.leadingPower (i : Interval) : Int :=
  (decimalLength i.value : Int) - decimalLength i.scale - 1

/-- The first hit on the grids `10 ^ power`, `10 ^ (power - 1)`, and so on, `steps` of them. -/
def search (i : Interval) : (steps : Nat) → (power : Int) → Nat × Int
  | 0, power => ((i.inUnits power).value / (i.inUnits power).scale, power)
  | steps + 1, power =>
    match (i.inUnits power).nearest? with
    | some n => (n, power)
    | none => search i steps (power - 1)

/-- The digits and the power of ten of the shortest decimal for the positive double
`mantissa * 2 ^ exponent`: a pair `(n, p)` that stands for `n * 10 ^ p`.  Seventeen digits always
suffice, so twenty grids do. -/
def decimal (mantissa : Nat) (exponent least : Int) : Nat × Int :=
  let i := Interval.around mantissa exponent least
  search i 20 (i.leadingPower + 1)

end Script.Shortest
