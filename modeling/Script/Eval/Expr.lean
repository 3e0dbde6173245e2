import Script.Eval.Access
import Script.Eval.Native

/-!
# Evaluating expressions

The meaning of an expression in terms of the meaning of its parts: `eval` evaluates a smaller
expression, and `exec` runs a statement of a function body.

## Main definitions

* `Completion`: how a statement ends.
* `Eval.runAll`: statements in sequence.
* `Eval.call`: a call of a value.
* `Expr.evalWith`: one level of an expression.
-/

namespace Script

/-- How a statement ends: it went on, with a value, or it leaves a function or a loop. -/
inductive Completion where
  | next (value : Value)
  | ret (value : Value)
  | brk
  | cont
  deriving DecidableEq, Repr

/-- The same completion without its value, if the statement went on. -/
def Completion.settle : Completion → Completion
  | next _ => next .undefined
  | other => other

namespace Eval

/-- Runs statements until one does not go on.  The value is that of the last one, or `last` if there
is none. -/
def runAll (exec : Stmt Unit → Eval Completion) (last : Value) :
    List (Stmt Unit) → Eval Completion
  | [] => return .next last
  | s :: rest => do
    match ← exec s with
    | .next v => runAll exec v rest
    | other => return other

/-- Runs a body in a scope. -/
def runBody (exec : Stmt Unit → Eval Completion) (body : List (Stmt Unit)) (scope : ScopeId) :
    Eval Completion :=
  within scope (runAll exec .undefined body)

/-- Calls a function of the program.  Its body runs in a new scope with the arguments, inside the
scope in which the function was made. -/
def callClosure (exec : Stmt Unit → Eval Completion) (f : Closure) (args : List Value) :
    Eval Value := do
  if args.length ≠ f.params.length then
    raise (.parameterCount (Function.closure f).name f.params.length args.length)
  if maxCallDepth ≤ (← getDepth) then raise .recursionLimit
  let scope ← newScope f.scope (Dict.empty.insertAll (f.params.zip args))
  match ← calling (runBody exec f.body scope) with
  | .next v | .ret v => return v
  | .brk | .cont => raise .loopControlInFunction

/-- Calls a value. -/
def call (exec : Stmt Unit → Eval Completion) (callee : Value) (receiver : Option Value)
    (args : List Value) : Eval Value :=
  match callee with
  | .function f => do
    match (← getStore).function? f with
    | some (.native n) => n.call receiver args
    | some (.closure c) => callClosure exec c args
    | none => stop (.fault .missingFunction)
  | other => raise (.notCallable other.kind)

/-- The values of expressions, from left to right. -/
def evalAll (eval : Expr Unit → Eval Value) : List (Expr Unit) → Eval (List Value)
  | [] => return []
  | e :: rest => do
    let v ← eval e
    let vs ← evalAll eval rest
    return v :: vs

/-- The values of map entries, from left to right. -/
def evalEntries (eval : Expr Unit → Eval Value) :
    List (String × Expr Unit) → Eval (List (String × Value))
  | [] => return []
  | (key, e) :: rest => do
    let v ← eval e
    let vs ← evalEntries eval rest
    return (key, v) :: vs

/-- The callee of a call and its receiver.  A member is called on the value whose member it is. -/
def evalCallee (eval : Expr Unit → Eval Value) : Expr Unit → Eval (Value × Option Value)
  | .field _ container name => do
    let target ← eval container
    let f ← readMember target name
    return (f, some target)
  | callee => do
    let f ← eval callee
    return (f, none)

/-- Assigns a value to a place. -/
def assignTo (eval : Expr Unit → Eval Value) (value : Value) : Target Unit → Eval Unit
  | .var _ name => assign name value
  | .field _ container name => do
    let target ← eval container
    writeField target name value
  | .index _ container key => do
    let target ← eval container
    let k ← eval key
    writeIndex target k value

end Eval

open Eval

/-- **One level of an expression.**  Operands are evaluated from left to right, and the value of an
assignment before its place. -/
@[inline] def Expr.evalWith (eval : Expr Unit → Eval Value) (exec : Stmt Unit → Eval Completion) :
    Expr Unit → Eval Value
  | .number _ x => return .number x
  | .text _ s => return .text s
  | .boolean _ b => return .boolean b
  | .undefined _ => return .undefined
  | .var _ name => lookup name
  | .binary _ op left right => do
    let l ← eval left
    match op.shortcut? l with
    | some v => return v
    | none =>
      let r ← eval right
      ofExcept (op.apply (← getStore) l r)
  | .unary _ op operand => do
    let v ← eval operand
    ofExcept (op.apply v)
  | .assign _ target value => do
    let v ← eval value
    assignTo eval v target
    return v
  | .call _ callee args => do
    let (f, receiver) ← evalCallee eval callee
    let vs ← evalAll eval args
    Eval.call exec f receiver vs
  | .array _ items => do
    let vs ← evalAll eval items
    newArray vs.toArray
  | .map _ entries => do
    let vs ← evalEntries eval entries
    newMap (Dict.empty.insertAll vs)
  | .index _ container key => do
    let target ← eval container
    let k ← eval key
    readIndex target k
  | .field _ container name => do
    let target ← eval container
    readMember target name
  | .lambda _ name params body => newClosure name params body

end Script
