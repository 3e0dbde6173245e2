/-!
# Numerals

A numeral is a run of digits, or two runs with a point between them.  It denotes the double nearest
to its decimal value.
-/

namespace Script.Numeral

/-- The value of a run of digits that follows the digits of `n`. -/
def accumulate (n : Nat) (digits : List Char) : Nat :=
  digits.foldl (fun n c => 10 * n + (c.toNat - '0'.toNat)) n

/-- Whether a list of characters is a non-empty run of digits. -/
def isRun (cs : List Char) : Bool := !cs.isEmpty && cs.all Char.isDigit

/-- The double nearest to the decimal that the characters spell, if they are a numeral. -/
def ofChars? (cs : List Char) : Option Float :=
  let whole := cs.takeWhile Char.isDigit
  match cs.dropWhile Char.isDigit with
  | [] => if isRun whole then some (Float.ofScientific (accumulate 0 whole) false 0) else none
  | c :: fraction =>
    if c = '.' && isRun whole && isRun fraction then
      some (Float.ofScientific (accumulate (accumulate 0 whole) fraction) true fraction.length)
    else none

/-- The double that a numeral denotes, if the text is a numeral. -/
def read? (numeral : String) : Option Float := ofChars? numeral.toList

end Script.Numeral
