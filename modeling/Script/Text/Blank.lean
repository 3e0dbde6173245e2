/-!
# Blank characters

The characters that may stand between tokens: those with the Unicode property `White_Space`.  The
property is stable, so the set is written out.
-/

namespace Script.Text

/-- The characters with the property `White_Space`, as closed ranges of code points. -/
def blankRanges : List (Nat × Nat) :=
  [(0x09, 0x0d), (0x20, 0x20), (0x85, 0x85), (0xa0, 0xa0), (0x1680, 0x1680), (0x2000, 0x200a),
    (0x2028, 0x2029), (0x202f, 0x202f), (0x205f, 0x205f), (0x3000, 0x3000)]

/-- Whether a character separates tokens without being part of one. -/
def isBlank (c : Char) : Bool :=
  blankRanges.any fun r => r.1 ≤ c.toNat && c.toNat ≤ r.2

end Script.Text
