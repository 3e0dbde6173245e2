import Script.Eval.Error
import Script.Number.Arithmetic
import Script.Text.Order
import Script.Value.Equality
import Script.Value.Render

/-!
# Operators

What the operators compute from the values of their operands.
-/

namespace Script

/-- The number that a value is. -/
def Value.toNumber : Value → Except EvalError Float
  | number x => .ok x
  | v => .error (.notANumber v.kind)

/-- The order of two numbers, unless one of them is NaN. -/
def Number.order? (x y : Float) : Option Ordering :=
  if x < y then some .lt
  else if x == y then some .eq
  else if y < x then some .gt
  else none

/-- The order of two values: of two texts, or of two numbers. -/
def Value.order (left right : Value) : Except EvalError Ordering :=
  match left, right with
  | .text s, .text t => .ok (Text.order s t)
  | left, right => do
    let x ← left.toNumber
    let y ← right.toNumber
    match Number.order? x y with
    | some o => .ok o
    | none => .error .incomparable

/-- Whether a value is a text. -/
def Value.isText : Value → Bool
  | text _ => true
  | _ => false

/-- The result of an operation on two numbers. -/
def Value.arithmetic (f : Float → Float → Float) (left right : Value) : Except EvalError Value := do
  let x ← left.toNumber
  let y ← right.toNumber
  .ok (.number (f x y))

/-- The result of a comparison. -/
def Value.comparison (test : Ordering → Bool) (left right : Value) : Except EvalError Value := do
  .ok (.boolean (test (← left.order right)))

/-- The result of an operator on the values of its operands.  Of the two logical operators this is
what remains once the left operand has not decided. -/
def BinaryOp.apply (σ : Store) (op : BinaryOp) (left right : Value) : Except EvalError Value :=
  match op with
  | add =>
    if left.isText || right.isText then .ok (.text (σ.display left ++ σ.display right))
    else left.arithmetic (· + ·) right
  | sub => left.arithmetic (· - ·) right
  | mul => left.arithmetic (· * ·) right
  | div => left.arithmetic (· / ·) right
  | mod => left.arithmetic Number.remainder right
  | equal => .ok (.boolean (σ.equal left right))
  | notEqual => .ok (.boolean (!σ.equal left right))
  | less => left.comparison Ordering.isLT right
  | lessEqual => left.comparison Ordering.isLE right
  | greater => left.comparison Ordering.isGT right
  | greaterEqual => left.comparison Ordering.isGE right
  | and | or => .ok (.boolean right.truthy)

/-- The result of an operator that its left operand decides alone. -/
def BinaryOp.shortcut? (op : BinaryOp) (left : Value) : Option Value :=
  match op with
  | and => if left.truthy then none else some (.boolean false)
  | or => if left.truthy then some (.boolean true) else none
  | _ => none

/-- The result of an operator on the value of its operand. -/
def UnaryOp.apply (op : UnaryOp) (v : Value) : Except EvalError Value :=
  match op with
  | negate => do .ok (.number (-(← v.toNumber)))
  | not => .ok (.boolean !v.truthy)

end Script
