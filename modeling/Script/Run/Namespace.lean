import Script.Value.Store

/-!
# Namespaces

A namespace is a scope without a scope around it, in a store.  Programs that are run one after the
other in one namespace see each other's definitions.
-/

namespace Script

/-- A store and the scope in it that programs start from. -/
structure Namespace where
  store : Store
  root : ScopeId

namespace Namespace

/-- A new namespace without bindings in the given store. -/
def inStore (σ : Store) : Namespace :=
  let (root, store) := σ.newScope none .empty
  ⟨store, root⟩

/-- A new namespace without bindings. -/
def empty : Namespace := inStore .empty

/-- The bindings of the namespace. -/
def bindings (ns : Namespace) : Dict Value := ns.store.bindings ns.root

/-- Makes a binding. -/
def define (ns : Namespace) (name : String) (value : Value) : Namespace :=
  { ns with store := ns.store.define ns.root name value }

/-- The value of a name. -/
def get? (ns : Namespace) (name : String) : Option Value := ns.bindings.get? name

/-- Whether a name is bound. -/
def contains (ns : Namespace) (name : String) : Bool := ns.bindings.contains name

/-- The names that are bound, in the order of their first definitions. -/
def names (ns : Namespace) : List String := ns.bindings.keys

/-- The number of names that are bound. -/
def size (ns : Namespace) : Nat := ns.bindings.size

/-- Binds a native function to its name. -/
def installNative (ns : Namespace) (n : Native) : Namespace :=
  let (f, store) := ns.store.newFunction (.native n)
  { ns with store := store }.define n.name (.function f)

/-- Binds the native functions that are no methods. -/
def install (ns : Namespace) : Namespace := (ns.installNative .println).installNative .exit

/-- A new namespace with the native functions. -/
def prelude : Namespace := empty.install

end Namespace

end Script
