import Script.Eval.Machine
import Script.Number.Arithmetic
import Script.Eval.Operator
import Script.Text.Case

/-!
# Native functions

What the native functions do.  A call checks that a method has a receiver and that the number of
arguments is right; then the function runs.
-/

namespace Script

/-- Checks a number of arguments. -/
def checkArity (least most count : Nat) : Except EvalError Unit :=
  if least ≤ count && count ≤ most then .ok () else .error (.argumentCount least most count)

/-- A natural number as a value. -/
def Value.ofNat (n : Nat) : Value := .number (Float.ofNat n)

namespace Native

open Eval

/-- The complaint of a method about its receiver. -/
def mismatch (n : Native) (receiver : Option Value) : Eval Value :=
  raise (.wrongReceiver n.name (receiver.map Value.kind))

/-- The length of an array, a text or a map. -/
def runLength (receiver : Option Value) : Eval Value := do
  let σ ← getStore
  match receiver with
  | some (.array a) => return .ofNat (σ.array a).size
  | some (.text s) => return .ofNat s.length
  | some (.map m) => return .ofNat (σ.map m).size
  | other => mismatch .length other

/-- Puts an item at the end of an array, and yields the new length. -/
def runPush (receiver : Option Value) (args : List Value) : Eval Value :=
  match receiver with
  | some (.array a) =>
    match args with
    | [] => stop (.fault (.missingArgument .push))
    | item :: _ => do
      modifyStore fun σ => σ.modifyArray a fun items => items.push item
      return .ofNat ((← getStore).array a).size
  | other => mismatch .push other

/-- Takes the last item off an array, and yields it. -/
def runPop (receiver : Option Value) : Eval Value :=
  match receiver with
  | some (.array a) => do
    let last := ((← getStore).array a).back?
    modifyStore fun σ => σ.modifyArray a fun items => items.pop
    return last.getD .undefined
  | other => mismatch .pop other

/-- A text in upper case. -/
def runUpper (receiver : Option Value) : Eval Value :=
  match receiver with
  | some (.text s) => return .text (Text.toUpper s)
  | other => mismatch .upper other

/-- A text in lower case. -/
def runLower (receiver : Option Value) : Eval Value :=
  match receiver with
  | some (.text s) => return .text (Text.toLower s)
  | other => mismatch .lower other

/-- A new array of the keys of a map. -/
def runKeys (receiver : Option Value) : Eval Value :=
  match receiver with
  | some (.map m) => do
    let σ ← getStore
    newArray ((σ.map m).keys.map Value.text).toArray
  | other => mismatch .keys other

/-- Whether a map has a key. -/
def runHas (receiver : Option Value) (args : List Value) : Eval Value :=
  match args with
  | [] => stop (.fault (.missingArgument .has))
  | key :: _ =>
    match receiver, key with
    | some (.map m), .text k => do
      let σ ← getStore
      return .boolean ((σ.map m).contains k)
    | some (.map _), _ => return .boolean false
    | other, _ => mismatch .has other

/-- Writes a value, or nothing, and a line end. -/
def runPrintln (args : List Value) : Eval Value := do
  let σ ← getStore
  printLine ((args.head?.map σ.display).getD "")
  return .undefined

/-- Asks to exit with a code, or with zero. -/
def runExit (args : List Value) : Eval Value :=
  match args with
  | [] => stop (.exit 0)
  | code :: _ => do
    let x ← ofExcept code.toNumber
    stop (.exit (Number.toCode x))

/-- Runs a native function without any checks. -/
def run (n : Native) (receiver : Option Value) (args : List Value) : Eval Value :=
  match n with
  | println => runPrintln args
  | exit => runExit args
  | length => runLength receiver
  | push => runPush receiver args
  | pop => runPop receiver
  | upper => runUpper receiver
  | lower => runLower receiver
  | keys => runKeys receiver
  | has => runHas receiver args

/-- Calls a native function: a method needs a receiver, and the number of arguments must be right.
-/
def call (n : Native) (receiver : Option Value) (args : List Value) : Eval Value := do
  if n.isMethod && receiver.isNone then raise (.noReceiver n.name)
  ofExcept (checkArity n.minArgs n.maxArgs args.length)
  n.run receiver args

end Native

end Script
