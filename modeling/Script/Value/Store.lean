import Script.Dict
import Script.Value.Basic

/-!
# The store

All objects of a running program, each under its name.  Objects are created and changed, and never
removed.

A scope is a dictionary of bindings with an outer scope.  The outer scope of a scope is older than
the scope itself, so the chain of scopes that starts at a scope has no more members than there are
scopes up to it.

## Main definitions

* `Store`: arrays, maps, functions and scopes.
* `Store.resolve?`: the scope that a name belongs to, seen from a scope.
* `Store.lookup`, `Store.assign`, `Store.define`: reading, changing and making bindings.
-/

namespace Script

/-- A dictionary of bindings, and the scope around it. -/
structure Scope where
  outer : Option ScopeId
  bindings : Dict Value

/-- The objects of a program. -/
structure Store where
  arrays : Array (Array Value)
  maps : Array (Dict Value)
  functions : Array Function
  scopes : Array Scope

namespace Store

/-- The store without objects. -/
def empty : Store := ⟨#[], #[], #[], #[]⟩

/-! ### Arrays -/

/-- The items of an array. -/
def array (σ : Store) (a : ArrayId) : Array Value := σ.arrays.getD a.index #[]

/-- A new array with the given items. -/
def newArray (σ : Store) (items : Array Value) : ArrayId × Store :=
  (⟨σ.arrays.size⟩, { σ with arrays := σ.arrays.push items })

/-- The store after a change to an array. -/
def modifyArray (σ : Store) (a : ArrayId) (f : Array Value → Array Value) : Store :=
  { σ with arrays := σ.arrays.modify a.index f }

/-! ### Maps -/

/-- The entries of a map. -/
def map (σ : Store) (m : MapId) : Dict Value := σ.maps.getD m.index .empty

/-- A new map with the given entries. -/
def newMap (σ : Store) (entries : Dict Value) : MapId × Store :=
  (⟨σ.maps.size⟩, { σ with maps := σ.maps.push entries })

/-- The store after a change to a map. -/
def modifyMap (σ : Store) (m : MapId) (f : Dict Value → Dict Value) : Store :=
  { σ with maps := σ.maps.modify m.index f }

/-! ### Functions -/

/-- What a function object holds. -/
def function? (σ : Store) (f : FunctionId) : Option Function := σ.functions[f.index]?

/-- A new function object. -/
def newFunction (σ : Store) (f : Function) : FunctionId × Store :=
  (⟨σ.functions.size⟩, { σ with functions := σ.functions.push f })

/-- The name of a function object. -/
def functionName (σ : Store) (f : FunctionId) : String :=
  match σ.function? f with
  | some g => g.name
  | none => "anonymous"

/-! ### Scopes -/

/-- The scope of the given name. -/
def scope? (σ : Store) (s : ScopeId) : Option Scope := σ.scopes[s.index]?

/-- The bindings of a scope. -/
def bindings (σ : Store) (s : ScopeId) : Dict Value :=
  match σ.scope? s with
  | some scope => scope.bindings
  | none => .empty

/-- A new scope with the given bindings. -/
def newScope (σ : Store) (outer : Option ScopeId) (bindings : Dict Value) : ScopeId × Store :=
  (⟨σ.scopes.size⟩, { σ with scopes := σ.scopes.push ⟨outer, bindings⟩ })

/-- The store after a binding has been made in a scope. -/
def define (σ : Store) (s : ScopeId) (name : String) (value : Value) : Store :=
  { σ with
    scopes := σ.scopes.modify s.index fun scope =>
      { scope with bindings := scope.bindings.insert name value } }

/-- The innermost of the first `limit` scopes from `s` outwards that binds a name. -/
def resolveWithin (σ : Store) (name : String) : (limit : Nat) → (s : ScopeId) → Option ScopeId
  | 0, _ => none
  | limit + 1, s =>
    match σ.scope? s with
    | none => none
    | some scope =>
      if scope.bindings.contains name then some s
      else
        match scope.outer with
        | none => none
        | some outer => resolveWithin σ name limit outer

/-- The innermost scope from `s` outwards that binds a name. -/
def resolve? (σ : Store) (s : ScopeId) (name : String) : Option ScopeId :=
  σ.resolveWithin name (s.index + 1) s

/-- The value of a name, seen from a scope. -/
def lookup (σ : Store) (s : ScopeId) (name : String) : Option Value :=
  match σ.resolve? s name with
  | none => none
  | some owner => (σ.bindings owner).get? name

/-- Changes the binding of a name, seen from a scope, and says whether there is one.  If there is
none, the store stays as it is. -/
def assign (σ : Store) (s : ScopeId) (name : String) (value : Value) : Bool × Store :=
  match σ.resolve? s name with
  | none => (false, σ)
  | some owner => (true, σ.define owner name value)

end Store

end Script
