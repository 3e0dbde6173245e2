import Script.Number.Text
import Script.Value.Basic

/-!
# Evaluation errors

What can go wrong in a running program.  A program can catch an error; what it catches is the text.
-/

namespace Script

/-- The greatest number of function bodies that can be in progress at once. -/
def maxCallDepth : Nat := 256

/-- Why an evaluation failed. -/
inductive EvalError where
  | undefinedVariable (name : String)
  | notANumber (found : Kind)
  | notCallable (found : Kind)
  | notIterable (found : Kind)
  | notIndexable (container key : Kind)
  | noMember (found : Kind) (name : String)
  | noFields (found : Kind) (name : String)
  | outOfBounds (index : Float) (length : Nat)
  | incomparable
  | parameterCount (function : String) (expected got : Nat)
  | argumentCount (least most got : Nat)
  | recursionLimit
  | noReceiver (method : String)
  | wrongReceiver (method : String) (found : Option Kind)
  | printFailed (reason : String)
  | returnOutside
  | breakOutside
  | continueOutside
  | loopControlInFunction
  deriving DecidableEq, Repr

namespace EvalError

/-- How a range of argument counts is written. -/
def countRange (least most : Nat) : String :=
  if least = most then toString least else "between " ++ toString least ++ " and " ++ toString most

/-- The wording of each error. -/
def message : EvalError → String
  | undefinedVariable name => "Undefined variable '" ++ name ++ "'"
  | notANumber found => "expected a number, found " ++ found.name
  | notCallable found => "Cannot call a value of type " ++ found.name
  | notIterable found => "Cannot iterate over " ++ found.name
  | notIndexable container key => "Cannot index " ++ container.name ++ " with " ++ key.name
  | noMember found name => found.name ++ " has no member '" ++ name ++ "'"
  | noFields found name => "Cannot set field '" ++ name ++ "' on " ++ found.name
  | outOfBounds index length =>
    "Index " ++ Number.text index ++ " out of bounds for length " ++ toString length
  | incomparable => "Cannot compare NaN"
  | parameterCount function expected got =>
    "Function " ++ function ++ " expects " ++ toString expected ++ " arguments, got " ++
      toString got
  | argumentCount least most got =>
    "Expected " ++ countRange least most ++ " arguments, got " ++ toString got
  | recursionLimit => "Recursion limit exceeded (" ++ toString maxCallDepth ++ " calls)"
  | noReceiver method => method ++ " must be called on a value"
  | wrongReceiver method found =>
    method ++ " cannot be called on " ++ (found.map Kind.name).getD "nothing"
  | printFailed reason => "println failed: " ++ reason
  | returnOutside => "'return' outside of a function"
  | breakOutside => "'break' outside of a loop"
  | continueOutside => "'continue' outside of a loop"
  | loopControlInFunction => "Loop control cannot escape a function body"

end EvalError

end Script
