import Std.Data.HashMap
import Lox.Fault
import Lox.Store

/-!
What running a program reads and changes: the store, the environment in force, the distances of the
references met so far, the host's functions, and the text printed. Looking a name up never changes
any of it, and each operation below changes one part.
-/

namespace Lox.Machine

/-- A host function sees the clock and its arguments, and may refuse them with a message. A closure
that keeps values is another function from one call to the next, and one that writes to globals or
instances acts beside the program: sessions with such natives are those of `Lox.Stage`. -/
abbrev HostFunction := Float → List Value → Except String Value

/-- A broken output swallows what is printed, which no program can tell. -/
structure Output where
  text : String
  broken : Bool

def Output.print (output : Output) (line : String) : Output :=
  if output.broken then output else { output with text := output.text ++ line ++ "\n" }

abbrev Distances := Std.HashMap Nat Nat

structure State where
  store : Store
  current : Environment
  distances : Distances
  /-- A native function's identity is its place here. -/
  hosts : Array HostFunction
  /-- How many functions and classes have been made; the next one's identity. -/
  born : Nat
  output : Output
  /-- What the clock says at each call of a host function, by how many calls came before. -/
  clock : Nat → Float
  hostCalls : Nat

/-- The scope every other one is inside of. -/
def globals : Environment := ⟨0, []⟩

namespace State

/-! ### Names -/

def define (state : State) (name : String) (value : Value) : State :=
  { state with store := state.store.define state.current name value }

def distance? (state : State) (reference : Reference) : Option Nat :=
  state.distances[reference.id]?

/-- A reference with a distance is to a local; any other is to a global. -/
def lookup? (state : State) (reference : Reference) : Option Value :=
  match state.distance? reference with
  | some distance => state.store.getAt? state.current distance reference.name.lexeme
  | none => state.store.get? globals reference.name.lexeme

def slot? (state : State) (reference : Reference) : Option Nat :=
  match state.distance? reference with
  | some distance => state.store.slotAt? state.current distance reference.name.lexeme
  | none => state.store.slot? globals reference.name.lexeme

def write (state : State) (scope : Nat) (name : String) (value : Value) : State :=
  { state with store := state.store.write scope name value }

def record (state : State) (distances : List (Nat × Nat)) : State :=
  { state with distances := state.distances.insertMany distances }

/-! ### Environments -/

def withCurrent (state : State) (environment : Environment) : State :=
  { state with current := environment }

/-- A new scope inside an environment, which becomes the one in force. -/
def enter (state : State) (outer : Environment) (bindings : Bindings Value) : State :=
  let (environment, store) := state.store.enter outer bindings
  { state with store, current := environment }

/-! ### Functions and classes -/

/-- A function made where the program stands. -/
def close (state : State) (declaration : FunctionDecl) (isInitializer : Bool) :
    Function × State :=
  (⟨state.born, declaration, state.current, isInitializer⟩, { state with born := state.born + 1 })

/-- The method with a scope of its own around it, in which `this` is the instance. -/
def bindMethod (state : State) (method : Function) (receiver : Instance) : Function × State :=
  let scope := Bindings.empty.insert thisName (.object receiver)
  let (environment, store) := state.store.enter method.closure scope
  ({ method with identity := state.born, closure := environment },
    { state with store, born := state.born + 1 })

/-- The functions of a class body; of two with one name the later stays. -/
def closeMethods (state : State) (methods : List FunctionDecl) (bindings : Bindings Function) :
    Bindings Function × State :=
  match methods with
  | [] => (bindings, state)
  | declaration :: rest =>
    let (method, state) := state.close declaration declaration.isInitializer
    state.closeMethods rest (bindings.insert declaration.name.lexeme method)

/-- The methods of a subclass close over a scope that holds `super`. -/
def enterSuper (state : State) (superclass : Option Class) : State :=
  match superclass with
  | some above =>
    state.enter state.current (Bindings.empty.insert superName (.klass above))
  | none => state

def declareClass (state : State) (name : Token) (superclass : Option Class)
    (methods : List FunctionDecl) : State :=
  let outside := state.current
  let (methods, state) := (state.enterSuper superclass).closeMethods methods .empty
  let own : Layer := ⟨state.born, name.lexeme, methods⟩
  let inherited := (superclass.map Class.layers).getD []
  let state := { state with current := outside, born := state.born + 1 }
  state.define name.lexeme (.klass ⟨own, inherited⟩)

def instantiate (state : State) (c : Class) : Instance × State :=
  let (i, store) := state.store.instantiate c
  (i, { state with store })

def setField (state : State) (i : Instance) (name : String) (value : Value) : State :=
  { state with store := state.store.setField i name value }

/-- A field of the instance, or else a method of its class, bound to the instance. -/
def property (state : State) (i : Instance) (name : Token) : Except RuntimeFault Value × State :=
  match state.store.field? i name.lexeme with
  | some value => (.ok value, state)
  | none =>
    match i.ofClass.findMethod? name.lexeme with
    | some method =>
      let (bound, state) := state.bindMethod method i
      (.ok (.function bound), state)
    | none => (.error (.undefinedProperty name.lexeme name.line), state)

/-! ### The host -/

def print (state : State) (line : String) : State :=
  { state with output := state.output.print line }

/-- Binds a host function to a global. -/
def defineNative (state : State) (name : String) (arity : Nat) (act : HostFunction) : State :=
  let native : Native := ⟨state.hosts.size, name, arity⟩
  { state with
    hosts := state.hosts.push act
    store := state.store.define globals name (.native native) }

def callHost (state : State) (native : Native) (arguments : List Value) :
    Except String Value × State :=
  let reading := state.clock state.hostCalls
  let result := match state.hosts[native.identity]? with
    | some act => act reading arguments
    | none => .ok .nil
  (result, { state with hostCalls := state.hostCalls + 1 })

/-- What has been printed since this was last asked. -/
def takeText (state : State) : String × State :=
  (state.output.text, { state with output := { state.output with text := "" } })

/-- The global scope alone. -/
def bare (clock : Nat → Float) (broken : Bool) : State where
  store := (Store.empty.outermost).2
  current := globals
  distances := ∅
  hosts := #[]
  born := 0
  output := ⟨"", broken⟩
  clock
  hostCalls := 0

/-- Programs start with one native function, which reads the clock. -/
def start (clock : Nat → Float) (broken : Bool) : State :=
  (bare clock broken).defineNative "clock" 0 fun now _ => .ok (.number now)

end State
end Lox.Machine
