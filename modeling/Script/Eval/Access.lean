import Script.Eval.Machine
import Script.Eval.Operator

/-!
# Access to the parts of values

Indices, members and the items that a loop goes through.
-/

namespace Script

/-- The position that a number names in a sequence of the given length. -/
def checkIndex (x : Float) (length : Nat) : Except EvalError Nat :=
  match Number.toNat? x with
  | some n => if n < length then .ok n else .error (.outOfBounds x length)
  | none => .error (.outOfBounds x length)

/-- The items that a loop over a value goes through: those of an array, the characters of a text, or
the keys of a map. -/
def Store.items (σ : Store) : Value → Except EvalError (List Value)
  | .array a => .ok (σ.array a).toList
  | .text s => .ok (s.toList.map fun c => .text c.toString)
  | .map m => .ok ((σ.map m).keys.map .text)
  | v => .error (.notIterable v.kind)

namespace Eval

/-- The item of a container at a key. -/
def readIndex (container key : Value) : Eval Value := do
  let σ ← getStore
  match container, key with
  | .array a, .number x =>
    let i ← ofExcept (checkIndex x (σ.array a).size)
    match (σ.array a)[i]? with
    | some v => return v
    | none => stop (.fault .missingItem)
  | .text s, .number x =>
    let i ← ofExcept (checkIndex x s.length)
    match s.toList[i]? with
    | some c => return .text c.toString
    | none => stop (.fault .missingItem)
  | .map m, .text k => return ((σ.map m).get? k).getD .undefined
  | container, key => raise (.notIndexable container.kind key.kind)

/-- Changes the item of a container at a key. -/
def writeIndex (container key value : Value) : Eval Unit :=
  match container, key with
  | .array a, .number x => do
    let length := ((← getStore).array a).size
    let i ← ofExcept (checkIndex x length)
    if i < length then modifyStore fun σ => σ.modifyArray a fun items => items.setIfInBounds i value
    else stop (.fault .missingItem)
  | .map m, .text k => modifyStore fun σ => σ.modifyMap m fun d => d.insert k value
  | container, key => raise (.notIndexable container.kind key.kind)

/-- Changes the field of a map. -/
def writeField (container : Value) (name : String) (value : Value) : Eval Unit :=
  match container with
  | .map m => modifyStore fun σ => σ.modifyMap m fun d => d.insert name value
  | other => raise (.noFields other.kind name)

/-- The method of a value, as a new function object.  A map has no members but its entries and its
methods, and yields undefined for any other name. -/
def readMethod (target : Value) (name : String) : Eval Value :=
  match Native.method? target.kind name with
  | some method => newFunction (.native method)
  | none =>
    match target with
    | .map _ => return .undefined
    | other => raise (.noMember other.kind name)

/-- The member of a value.  An entry of a map comes before a method of the same name. -/
def readMember (target : Value) (name : String) : Eval Value := do
  let σ ← getStore
  match target with
  | .map m =>
    match (σ.map m).get? name with
    | some v => return v
    | none => readMethod target name
  | _ => readMethod target name

end Eval

end Script
