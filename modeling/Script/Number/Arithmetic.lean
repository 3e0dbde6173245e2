import Script.Number.Binary

/-!
# Arithmetic beyond the four operations

The remainder of a division of doubles, which is exact, and the conversion of a double to an exit
code.
-/

namespace Script.Number

/-- The remainder `r` of `|x| = q * |y| + r` for magnitudes `m * 2 ^ e` and `n * 2 ^ f` and a whole
quotient `q`, in units of `2 ^ (min e f)`. -/
def remainderUnits (m : Nat) (e : Int) (n : Nat) (f : Int) : Nat × Int :=
  let unit := min e f
  ((m * Nat.pow 2 (e - unit).toNat) % (n * Nat.pow 2 (f - unit).toNat), unit)

/-- The remainder of `x` divided by `y`, with the quotient rounded toward zero.  It has the sign of
`x`, and it is NaN if `x` is infinite or `y` is zero. -/
def remainder (x y : Float) : Float :=
  match Binary.ofFloat x, Binary.ofFloat y with
  | .nan, _ => x
  | _, .nan => y
  | .infinite _, _ => 0.0 / 0.0
  | .finite _ _ _, .infinite _ => x
  | .finite negative m e, .finite _ n f =>
    if n = 0 then 0.0 / 0.0
    else
      let (r, unit) := remainderUnits m e n f
      Binary.toFloat negative r unit

/-- The natural number that a double is, if it is one. -/
def toNat? (x : Float) : Option Nat := (Binary.ofFloat x).toNat?

/-- The 32-bit integer nearest to zero next to a double.  A double that is too large gives the
largest, one that is too small the smallest, and NaN gives zero. -/
def toCode (x : Float) : Int32 :=
  match Binary.ofFloat x with
  | .nan => 0
  | .infinite negative => if negative then Int32.minValue else Int32.maxValue
  | .finite negative mantissa exponent =>
    Int32.ofInt (max (-2147483648) (min 2147483647 (Binary.truncate negative mantissa exponent)))

end Script.Number
