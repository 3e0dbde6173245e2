import Script.Tree.Basic

/-!
# Values

The values of a program.  Arrays, maps and functions have an identity: the value names an object of
the store, and two names of one object see each other's changes.

## Main definitions

* `Value`: what an expression evaluates to.
* `Kind`: the type of a value, as diagnostics name it.
* `Function`: what a function object holds.
-/

namespace Script

/-- The name of an array in the store. -/
structure ArrayId where
  index : Nat
  deriving DecidableEq, Repr

/-- The name of a map in the store. -/
structure MapId where
  index : Nat
  deriving DecidableEq, Repr

/-- The name of a function object in the store. -/
structure FunctionId where
  index : Nat
  deriving DecidableEq, Repr

/-- The name of a scope in the store. -/
structure ScopeId where
  index : Nat
  deriving DecidableEq, Repr

/-- The values of a program. -/
inductive Value where
  | undefined
  | boolean (value : Bool)
  | number (value : Float)
  | text (value : String)
  | array (id : ArrayId)
  | map (id : MapId)
  | function (id : FunctionId)
  deriving DecidableEq, Repr

/-- The types of values. -/
inductive Kind where
  | undefined
  | boolean
  | number
  | text
  | array
  | map
  | function
  deriving DecidableEq, Repr

/-- The name of a type. -/
def Kind.name : Kind → String
  | undefined => "undefined"
  | boolean => "boolean"
  | number => "number"
  | text => "string"
  | array => "array"
  | map => "map"
  | function => "function"

namespace Value

/-- The type of a value. -/
def kind : Value → Kind
  | undefined => .undefined
  | boolean _ => .boolean
  | number _ => .number
  | text _ => .text
  | array _ => .array
  | map _ => .map
  | function _ => .function

/-- Whether a value counts as true in a condition.  Undefined, false, zero, NaN and the empty text
do not. -/
def truthy : Value → Bool
  | undefined => false
  | boolean b => b
  | number x => !(x == 0) && !x.isNaN
  | text s => !s.isEmpty
  | array _ | map _ | function _ => true

/-- Whether a value can be called. -/
def callable : Value → Bool
  | function _ => true
  | _ => false

end Value

/-- The functions that every program can use without defining them. -/
inductive Native where
  | println
  | exit
  | length
  | push
  | pop
  | upper
  | lower
  | keys
  | has
  deriving DecidableEq, Repr

namespace Native

/-- The name of a native function. -/
def name : Native → String
  | println => "println"
  | exit => "exit"
  | length => "length"
  | push => "push"
  | pop => "pop"
  | upper => "upper"
  | lower => "lower"
  | keys => "keys"
  | has => "has"

/-- Whether a native function acts on a receiver. -/
def isMethod : Native → Bool
  | println | exit => false
  | _ => true

/-- The least number of arguments. -/
def minArgs : Native → Nat
  | push | has => 1
  | _ => 0

/-- The greatest number of arguments. -/
def maxArgs : Native → Nat
  | println | exit | push | has => 1
  | _ => 0

/-- The method of the given name on values of a type, if there is one. -/
def method? (kind : Kind) (name : String) : Option Native :=
  match kind, name with
  | .array, "length" | .text, "length" | .map, "length" => some length
  | .array, "push" => some push
  | .array, "pop" => some pop
  | .text, "upper" => some upper
  | .text, "lower" => some lower
  | .map, "keys" => some keys
  | .map, "has" => some has
  | _, _ => none

end Native

/-- A function of the program: its code and the scope in which it was made. -/
structure Closure where
  name : Option String
  params : List String
  body : List (Stmt Unit)
  scope : ScopeId

/-- What a function object holds. -/
inductive Function where
  | native (native : Native)
  | closure (closure : Closure)

/-- The name of a function, as diagnostics write it. -/
def Function.name : Function → String
  | native f => f.name
  | closure f => f.name.getD "anonymous"

end Script
