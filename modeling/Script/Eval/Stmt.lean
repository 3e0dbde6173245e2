import Script.Eval.Expr

/-!
# Running statements

The meaning of a statement in terms of the meaning of its parts, and then of whole programs.  A
program may run forever, so evaluation is bounded: `fuel` limits the depth of nested evaluations
and the number of rounds of a loop with a condition.  An evaluation that does not reach the bound
does not depend on it.

## Main definitions

* `Stmt.execWith`: one level of a statement.
* `evalExpr`, `execStmt`: expressions and statements within a bound.
* `Stmt.evaluate`: a statement at the top level of a program.
-/

namespace Script

namespace Eval

/-- A loop with a condition, for at most the given number of rounds. -/
def whileLoop (condition : Eval Value) (body : Eval Completion) : (rounds : Nat) → Eval Completion
  | 0 => stop .outOfFuel
  | rounds + 1 => do
    if (← condition).truthy then
      match ← body with
      | .next _ | .cont => whileLoop condition body rounds
      | .brk => return .next .undefined
      | .ret v => return .ret v
    else
      return .next .undefined

/-- A loop over items. -/
def forLoop (body : Value → Eval Completion) : List Value → Eval Completion
  | [] => return .next .undefined
  | item :: rest => do
    match ← body item with
    | .next _ | .cont => forLoop body rest
    | .brk => return .next .undefined
    | .ret v => return .ret v

/-- Runs a body in a new scope with the given bindings. -/
def runInner (exec : Stmt Unit → Eval Completion) (bindings : Dict Value)
    (body : List (Stmt Unit)) : Eval Completion := do
  let scope ← newInnerScope bindings
  runBody exec body scope

/-- Runs a body in a new scope with one binding. -/
def runBinding (exec : Stmt Unit → Eval Completion) (name : String) (body : List (Stmt Unit))
    (value : Value) : Eval Completion :=
  runInner exec (Dict.empty.insert name value) body

/-- The value of an expression that may be missing. -/
def evalOption (eval : Expr Unit → Eval Value) : Option (Expr Unit) → Eval Value
  | none => return .undefined
  | some e => eval e

end Eval

open Eval

/-- **One level of a statement.**  Each body has a new scope, and each round of a loop has a new
scope again.  A loop over items goes through the items that there are when it begins. -/
@[inline] def Stmt.execWith (rounds : Nat) (eval : Expr Unit → Eval Value)
    (exec : Stmt Unit → Eval Completion) : Stmt Unit → Eval Completion
  | .letVar _ name init => do
    let v ← evalOption eval init
    define name v
    return .next v
  | .function _ name params body => do
    let f ← newClosure (some name) params body
    define name f
    return .next f
  | .expr _ e => do
    let v ← eval e
    return .next v
  | .block _ body => runInner exec .empty body
  | .ifElse _ condition yes no => do
    if (← eval condition).truthy then
      return (← runInner exec .empty yes).settle
    else
      match no with
      | some no => return (← runInner exec .empty no).settle
      | none => return .next .undefined
  | .whileLoop _ condition body =>
    Eval.whileLoop (eval condition) (runInner exec .empty body) rounds
  | .forEach _ name items body => do
    let v ← eval items
    let vs ← ofExcept ((← getStore).items v)
    forLoop (runBinding exec name body) vs
  | .tryCatch _ body name handler => do
    let flow ← catching (runInner exec .empty body) (runBinding exec name handler)
    return flow.settle
  | .throw _ e => do
    let v ← eval e
    stop (.raise v)
  | .ret _ e => do
    let v ← evalOption eval e
    return .ret v
  | .brk _ => return .brk
  | .cont _ => return .cont

mutual

/-- Evaluates an expression. -/
def evalExpr : (fuel : Nat) → Expr Unit → Eval Value
  | 0, _ => stop .outOfFuel
  | fuel + 1, e => e.evalWith (evalExpr fuel) (execStmt fuel)

/-- Runs a statement. -/
def execStmt : (fuel : Nat) → Stmt Unit → Eval Completion
  | 0, _ => stop .outOfFuel
  | fuel + 1, s => s.execWith fuel (evalExpr fuel) (execStmt fuel)

end

/-- The result of a statement at the top level of a program, where nothing can be left. -/
def Completion.topLevel : Completion → Eval Value
  | next v => return v
  | ret _ => raise .returnOutside
  | brk => raise .breakOutside
  | cont => raise .continueOutside

/-- Runs a statement at the top level of a program. -/
def Stmt.evaluate (fuel : Nat) (s : Stmt Unit) : Eval Value := do
  (← execStmt fuel s).topLevel

end Script
