import Lox.Value

/-!
Scopes and the fields of instances, each at an address that is never used again. A name is looked up
either by walking outwards to the nearest scope that binds it, or in the one scope at a given
distance; both find a slot first, and writing changes that slot alone.
-/

namespace Lox

structure Store where
  scopes : Array (Bindings Value)
  fields : Array (Bindings Value)

namespace Store

def empty : Store := ⟨#[], #[]⟩

/-! ### Scopes -/

def lookup? (store : Store) (scope : Nat) (name : String) : Option Value :=
  store.scopes[scope]?.bind (·.find? name)

def binds (store : Store) (name : String) (scope : Nat) : Bool :=
  (store.lookup? scope name).isSome

def write (store : Store) (scope : Nat) (name : String) (value : Value) : Store :=
  { store with scopes := store.scopes.modify scope (·.insert name value) }

def names (store : Store) (environment : Environment) : List String :=
  (store.scopes[environment.scope]?.map Bindings.names).getD []

/-- A scope with given bindings inside an environment. -/
def enter (store : Store) (outer : Environment) (bindings : Bindings Value) :
    Environment × Store :=
  (outer.within store.scopes.size, { store with scopes := store.scopes.push bindings })

/-- A scope that nothing is around. -/
def outermost (store : Store) : Environment × Store :=
  (⟨store.scopes.size, []⟩, { store with scopes := store.scopes.push .empty })

def define (store : Store) (environment : Environment) (name : String) (value : Value) : Store :=
  store.write environment.scope name value

/-- The nearest scope that binds a name. -/
def slot? (store : Store) (environment : Environment) (name : String) : Option Nat :=
  environment.scopes.find? (store.binds name)

/-- The scope at a distance, if it binds the name itself. -/
def slotAt? (store : Store) (environment : Environment) (distance : Nat) (name : String) :
    Option Nat :=
  (environment.ancestor? distance).bind fun found =>
    if store.binds name found.scope then some found.scope else none

def get? (store : Store) (environment : Environment) (name : String) : Option Value :=
  (store.slot? environment name).bind (store.lookup? · name)

def getAt? (store : Store) (environment : Environment) (distance : Nat) (name : String) :
    Option Value :=
  (environment.ancestor? distance).bind fun found => store.lookup? found.scope name

def assign? (store : Store) (environment : Environment) (name : String) (value : Value) :
    Option Store :=
  (store.slot? environment name).map (store.write · name value)

def assignAt? (store : Store) (environment : Environment) (distance : Nat) (name : String)
    (value : Value) : Option Store :=
  (store.slotAt? environment distance name).map (store.write · name value)

/-! ### Instances -/

def instantiate (store : Store) (c : Class) : Instance × Store :=
  (⟨store.fields.size, c⟩, { store with fields := store.fields.push .empty })

def field? (store : Store) (i : Instance) (name : String) : Option Value :=
  store.fields[i.identity]?.bind (·.find? name)

def setField (store : Store) (i : Instance) (name : String) (value : Value) : Store :=
  { store with fields := store.fields.modify i.identity (·.insert name value) }

def fieldNames (store : Store) (i : Instance) : List String :=
  (store.fields[i.identity]?.map Bindings.names).getD []

end Store
end Lox
