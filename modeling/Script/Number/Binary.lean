/-!
# Doubles as binary fractions

A finite double is an integer times a power of two.  `Binary.ofFloat` reads the two off the bits,
so that questions about a double (is it whole? which digits does it have?) are answered in exact
integer arithmetic.  `Binary.toFloat` goes the other way, for fractions that a double can hold.
-/

namespace Script

/-- The value of a double: NaN, an infinity, or `± mantissa * 2 ^ exponent`. -/
inductive Binary where
  | nan
  | infinite (negative : Bool)
  | finite (negative : Bool) (mantissa : Nat) (exponent : Int)
  deriving DecidableEq, Repr

namespace Binary

/-- The exponent of the least significant bit of the smallest doubles. -/
def minExponent : Int := -1074

/-- The value that the bits of a double stand for. -/
def ofFloat (x : Float) : Binary :=
  let bits := x.toBits.toNat
  let negative := bits / Nat.pow 2 63 % 2 == 1
  let biased : Nat := bits / Nat.pow 2 52 % Nat.pow 2 11
  let fraction : Nat := bits % Nat.pow 2 52
  if biased = 2047 then
    if fraction = 0 then infinite negative else nan
  else if biased = 0 then finite negative fraction minExponent
  else finite negative (Nat.pow 2 52 + fraction) ((biased : Int) - 1075)

/-- The whole part of `mantissa * 2 ^ exponent`. -/
def wholePart (mantissa : Nat) (exponent : Int) : Nat :=
  match exponent with
  | .ofNat e => mantissa * Nat.pow 2 e
  | .negSucc e => mantissa / Nat.pow 2 (e + 1)

/-- Whether `mantissa * 2 ^ exponent` is an integer. -/
def isWhole (mantissa : Nat) (exponent : Int) : Bool :=
  match exponent with
  | .ofNat _ => true
  | .negSucc e => mantissa % Nat.pow 2 (e + 1) == 0

/-- The natural number that a double is, if it is one.  Negative zero is zero. -/
def toNat? : Binary → Option Nat
  | finite negative mantissa exponent =>
    if isWhole mantissa exponent && (!negative || mantissa == 0) then
      some (wholePart mantissa exponent)
    else none
  | _ => none

/-- The integer next to a finite value on the side of zero. -/
def truncate (negative : Bool) (mantissa : Nat) (exponent : Int) : Int :=
  if negative then - (wholePart mantissa exponent : Int) else wholePart mantissa exponent

/-- The mantissa and exponent of the same value with at most 53 bits of mantissa, and no exponent
below the least; a bit that does not fit is dropped.  `steps` bounds the number of halvings. -/
def normalize : (steps : Nat) → (mantissa : Nat) → (exponent : Int) → Nat × Int
  | 0, m, e => (m, e)
  | steps + 1, m, e =>
    if m < Nat.pow 2 53 && minExponent ≤ e then (m, e) else normalize steps (m / 2) (e + 1)

/-- The mantissa and exponent of the same value with a mantissa of 53 bits, if the exponent can be
lowered so far.  `steps` bounds the number of doublings. -/
def raise : (steps : Nat) → (mantissa : Nat) → (exponent : Int) → Nat × Int
  | 0, m, e => (m, e)
  | steps + 1, m, e =>
    if Nat.pow 2 52 ≤ m || e ≤ minExponent then (m, e) else raise steps (m * 2) (e - 1)

/-- The double with the value `± mantissa * 2 ^ exponent`.  The value must be one that a double can
hold. -/
def toFloat (negative : Bool) (mantissa : Nat) (exponent : Int) : Float :=
  let (m, e) := normalize 4200 mantissa exponent
  let (m, e) := raise 60 m e
  let biased : Nat := if m < Nat.pow 2 52 then 0 else (e + 1075).toNat
  let bits := biased * Nat.pow 2 52 + m % Nat.pow 2 52 + if negative then Nat.pow 2 63 else 0
  Float.ofBits (.ofNat bits)

end Binary

end Script
