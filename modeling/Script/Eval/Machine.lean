import Script.Eval.Error
import Script.Sink
import Script.Value.Store

/-!
# The evaluation machine

Evaluation transforms a machine: the store, the output, the scope in which names are looked up, and
the number of function bodies in progress.  An evaluation that does not yield a result stops, and
the machine is then as it was at that moment.

## Main definitions

* `Machine`: the state of an evaluation.
* `Stop`: the ways in which an evaluation ends without a result.
* `Eval`: evaluations.
* `Eval.within`, `Eval.calling`: evaluation in another scope, and inside a function body.
-/

namespace Script

/-- The state of an evaluation. -/
structure Machine where
  store : Store
  sink : Sink
  scope : ScopeId
  depth : Nat

/-- Accesses that the checks before them rule out. -/
inductive Fault where
  /-- A native function was entered without an argument that it needs. -/
  | missingArgument (native : Native)
  /-- An index within the length of a container found no item. -/
  | missingItem
  /-- A function value names no function object. -/
  | missingFunction
  deriving DecidableEq, Repr

/-- The ways in which an evaluation ends without a result. -/
inductive Stop where
  /-- A value was raised, and can be caught. -/
  | raise (payload : Value)
  /-- The program asked to exit, which cannot be caught. -/
  | exit (code : Int32)
  /-- An access failed that should not. -/
  | fault (fault : Fault)
  /-- The bound on the length of the evaluation was reached. -/
  | outOfFuel
  deriving DecidableEq, Repr

/-- Evaluations with a result of type `α`. -/
abbrev Eval (α : Type) := EStateM Stop Machine α

namespace Eval

variable {α : Type}

/-- Stops. -/
def stop (s : Stop) : Eval α := fun m => .error s m

/-- Raises the text of an error. -/
def raise (e : EvalError) : Eval α := stop (.raise (.text e.message))

/-- The result, or the error raised. -/
def ofExcept : Except EvalError α → Eval α
  | .ok a => pure a
  | .error e => raise e

/-- The store. -/
def getStore : Eval Store := fun m => .ok m.store m

/-- The number of function bodies in progress. -/
def getDepth : Eval Nat := fun m => .ok m.depth m

/-- Changes the store. -/
def modifyStore (f : Store → Store) : Eval Unit := fun m => .ok () { m with store := f m.store }

/-- A new array. -/
def newArray (items : Array Value) : Eval Value := fun m =>
  let (a, store) := m.store.newArray items
  .ok (.array a) { m with store := store }

/-- A new map. -/
def newMap (entries : Dict Value) : Eval Value := fun m =>
  let (a, store) := m.store.newMap entries
  .ok (.map a) { m with store := store }

/-- A new function object. -/
def newFunction (f : Function) : Eval Value := fun m =>
  let (a, store) := m.store.newFunction f
  .ok (.function a) { m with store := store }

/-- A new function object with the given code that looks names up in the current scope. -/
def newClosure (name : Option String) (params : List String) (body : List (Stmt Unit)) :
    Eval Value := fun m => newFunction (.closure ⟨name, params, body, m.scope⟩) m

/-- A new scope inside the given one. -/
def newScope (outer : ScopeId) (bindings : Dict Value) : Eval ScopeId := fun m =>
  let (s, store) := m.store.newScope (some outer) bindings
  .ok s { m with store := store }

/-- A new scope inside the current one. -/
def newInnerScope (bindings : Dict Value) : Eval ScopeId := fun m => newScope m.scope bindings m

/-- Makes a binding in the current scope. -/
def define (name : String) (value : Value) : Eval Unit := fun m =>
  .ok () { m with store := m.store.define m.scope name value }

/-- The value of a name. -/
def lookup (name : String) : Eval Value := fun m =>
  match m.store.lookup m.scope name with
  | some v => .ok v m
  | none => raise (.undefinedVariable name) m

/-- Changes the binding of a name. -/
def assign (name : String) (value : Value) : Eval Unit := fun m =>
  match m.store.assign m.scope name value with
  | (true, store) => .ok () { m with store := store }
  | (false, store) => raise (.undefinedVariable name) { m with store := store }

/-- Writes a line to the output. -/
def printLine (text : String) : Eval Unit := fun m =>
  match m.sink.writeLine text with
  | (true, sink) => .ok () { m with sink := sink }
  | (false, sink) => raise (.printFailed IoError.sinkFull.message) { m with sink := sink }

/-- An evaluation in the scope `s`.  However it ends, the current scope is the same as before. -/
def within (s : ScopeId) (body : Eval α) : Eval α := fun m =>
  match body { m with scope := s } with
  | .ok a m' => .ok a { m' with scope := m.scope }
  | .error e m' => .error e { m' with scope := m.scope }

/-- An evaluation that counts as a function body in progress: one is added to the count before it,
and taken off again after it, however it ends. -/
def calling (body : Eval α) : Eval α := fun m =>
  match body { m with depth := m.depth + 1 } with
  | .ok a m' => .ok a { m' with depth := m'.depth - 1 }
  | .error e m' => .error e { m' with depth := m'.depth - 1 }

/-- An evaluation whose raised values are handled. -/
def catching (body : Eval α) (handler : Value → Eval α) : Eval α := fun m =>
  match body m with
  | .error (.raise payload) m' => handler payload m'
  | result => result

end Eval

end Script
