import Script.Text.CaseTable

/-!
# Upper and lower case

The full case mappings: a character may map to several.  A capital sigma at the end of a word has a
lower case form of its own; this is the only mapping that depends on the characters around it.
-/

namespace Script.Text

/-- The code point that a character maps to by the given runs, if it is in one. -/
def runTarget? (runs : Array CaseRun) (n : Nat) : Option Nat :=
  (runs.find? fun r => r.first ≤ n && n ≤ r.last && (n - r.first) % r.step == 0).map
    fun r => (r.offset + (n : Int)).toNat

/-- The characters that a character maps to: a listed sequence, the target of a run, or itself. -/
def mapCase (runs : Array CaseRun) (sequences : Array (Nat × List Nat)) (c : Char) : List Char :=
  match runTarget? runs c.toNat with
  | some n => [Char.ofNat n]
  | none =>
    match sequences.find? fun s => s.1 == c.toNat with
    | some s => s.2.map Char.ofNat
    | none => [c]

/-- Whether a code point lies in one of the given ranges. -/
def inRanges (ranges : Array (Nat × Nat)) (n : Nat) : Bool :=
  ranges.any fun r => r.1 ≤ n && n ≤ r.2

/-- Whether a character is a letter with case. -/
def isCased (c : Char) : Bool := inRanges casedRanges c.toNat

/-- Whether a character is passed over when the end of a word is looked for. -/
def isCaseIgnorable (c : Char) : Bool := inRanges ignorableRanges c.toNat

/-- Whether the first character that is not passed over is a letter with case. -/
def leadsToCased (cs : List Char) : Bool :=
  match cs.dropWhile isCaseIgnorable with
  | [] => false
  | c :: _ => isCased c

/-- The capital sigma. -/
def capitalSigma : Char := Char.ofNat 0x3a3

/-- The lower case of a capital sigma: its final form if a letter stands before it and none after.
-/
def lowerSigma (before after : List Char) : Char :=
  if leadsToCased before && !leadsToCased after then Char.ofNat 0x3c2 else Char.ofNat 0x3c3

/-- The lower case of the characters after `before`, which has the nearest character first. -/
def lowerFrom (before : List Char) : List Char → List Char
  | [] => []
  | c :: rest =>
    let mapped :=
      if c = capitalSigma then [lowerSigma before rest] else mapCase lowerRuns lowerSequences c
    mapped ++ lowerFrom (c :: before) rest

/-- A text in upper case. -/
def toUpper (s : String) : String :=
  String.ofList (s.toList.flatMap (mapCase upperRuns upperSequences))

/-- A text in lower case. -/
def toLower (s : String) : String := String.ofList (lowerFrom [] s.toList)

end Script.Text
