import Script.Number.Binary
import Script.Number.Shortest

/-!
# Numbers as text

Numbers are written positionally, never with an exponent.  A whole number below `10 ^ 15` is written
as an integer; any other finite number with the fewest digits that identify it.
-/

namespace Script.Number

/-- Whole numbers of a magnitude below this one are written exactly. -/
def exactLimit : Nat := Nat.pow 10 15

/-- The decimal digits of a natural number. -/
def digitsOf (n : Nat) : List Char := Nat.toDigits 10 n

/-- The digits `digits * 10 ^ power`, with a point where one is needed. -/
def positional (digits : Nat) (power : Int) : List Char :=
  let ds := digitsOf digits
  match power with
  | .ofNat p => ds ++ List.replicate p '0'
  | .negSucc p =>
    let places := p + 1
    if ds.length ≤ places then '0' :: '.' :: (List.replicate (places - ds.length) '0' ++ ds)
    else ds.take (ds.length - places) ++ '.' :: ds.drop (ds.length - places)

/-- Drops the zeros at the end of `digits`, raising the power of ten by one for each.  `steps`
bounds their number. -/
def stripZeros : (steps : Nat) → (digits : Nat) → (power : Int) → Nat × Int
  | 0, d, p => (d, p)
  | steps + 1, d, p => if d % 10 = 0 && d ≠ 0 then stripZeros steps (d / 10) (p + 1) else (d, p)

/-- The text of a magnitude `mantissa * 2 ^ exponent`. -/
def magnitude (mantissa : Nat) (exponent : Int) : List Char :=
  if Binary.isWhole mantissa exponent && Binary.wholePart mantissa exponent < exactLimit then
    digitsOf (Binary.wholePart mantissa exponent)
  else
    let (digits, power) := Shortest.decimal mantissa exponent Binary.minExponent
    let (digits, power) := stripZeros 400 digits power
    positional digits power

/-- The text of a number.  Zero has no sign. -/
def text (x : Float) : String :=
  match Binary.ofFloat x with
  | .nan => "NaN"
  | .infinite negative => if negative then "-inf" else "inf"
  | .finite negative mantissa exponent =>
    let body := String.ofList (magnitude mantissa exponent)
    if negative && mantissa ≠ 0 then "-" ++ body else body

end Script.Number
