import Script.Number.Text
import Script.Text.Quoted
import Script.Value.Store

/-!
# Values as text

The text of a value.  Arrays and maps show their contents.  A container that is met again inside
itself is written as a mark, so that every value has a text, also if it contains itself.

## Main definitions

* `Store.render`: the text of a value inside given containers.
* `Store.display`: the text of a value by itself, where a text stands without quotes.
* `Store.inspect`: the text of a value as an item, where a text is quoted.
-/

namespace Script

/-- An object that has contents. -/
inductive Container where
  | array (id : ArrayId)
  | map (id : MapId)
  deriving DecidableEq, Repr

namespace Store

/-- The mark for an array inside itself. -/
def arrayMark : String := "[...]"

/-- The mark for a map inside itself. -/
def mapMark : String := "\x7b...\x7d"

/-- The text of a value that stands inside the containers `around`.  A text is quoted iff `nested`
holds.  Containers are entered at most `depth` deep. -/
def render (σ : Store) :
    (depth : Nat) → (around : List Container) → (nested : Bool) → Value → String
  | _, _, _, .undefined => "undefined"
  | _, _, _, .boolean b => if b then "true" else "false"
  | _, _, _, .number x => Number.text x
  | _, _, nested, .text s => if nested then Text.quote s else s
  | _, _, _, .function f => "<function " ++ σ.functionName f ++ ">"
  | 0, _, _, .array _ => arrayMark
  | 0, _, _, .map _ => mapMark
  | depth + 1, around, _, .array a =>
    if .array a ∈ around then arrayMark
    else
      let items := (σ.array a).toList.map (σ.render depth (.array a :: around) true)
      "[" ++ ", ".intercalate items ++ "]"
  | depth + 1, around, _, .map m =>
    if .map m ∈ around then mapMark
    else
      let items := (σ.map m).entries.map fun e =>
        e.1 ++ ": " ++ σ.render depth (.map m :: around) true e.2
      "\x7b" ++ ", ".intercalate items ++ "\x7d"

/-- A depth that no path through different containers exceeds. -/
def depthBound (σ : Store) : Nat := σ.arrays.size + σ.maps.size + 2

/-- The text of a value by itself. -/
def display (σ : Store) (v : Value) : String := σ.render σ.depthBound [] false v

/-- The text of a value as it stands inside a container. -/
def inspect (σ : Store) (v : Value) : String := σ.render σ.depthBound [] true v

end Store

end Script
