import Lox.Machine.Config
import Lox.Machine.Operator

/-!
One step of a program. Nothing here recurses: a step looks at one expression or statement, or hands
one result to the frame on top. A return and a fault take frames off one by one, and each frame
that had put another environment in force undoes that, so the environment is restored on every way
out.
-/

namespace Lox.Machine

open Config

/-! ### Calls -/

/-- A parameter without an argument stays unbound, and arguments without a parameter are dropped. -/
def parameterBindings (params : List Token) (arguments : List Value) : Bindings Value :=
  .ofList ((params.map Token.lexeme).zip arguments)

/-- The body of a function, in a scope of its own inside the one it was made in. -/
def enterFunction (function : Function) (arguments : List Value) (line : Nat) (stack : List Frame)
    (state : State) : Config :=
  let caller := state.current
  let scope := parameterBindings function.declaration.params arguments
  let body := function.declaration.body
  done .nil (.sequence body :: .activation caller function line :: stack)
    (state.enter function.closure scope)

def construct (c : Class) (arguments : List Value) (line : Nat) (stack : List Frame)
    (state : State) : Config :=
  let (made, state) := state.instantiate c
  match c.initializer? with
  | some method =>
    let (initializer, state) := state.bindMethod method made
    enterFunction initializer arguments line (.constructing made :: stack) state
  | none => done (.object made) stack state

def callNative (native : Native) (arguments : List Value) (line : Nat) (stack : List Frame)
    (state : State) : Config :=
  let (result, state) := state.callHost native arguments
  ofExcept (result.mapError (.native native.name · line)) stack state

/-- A call that takes the arguments as they are, however many. -/
def apply (callee : Value) (arguments : List Value) (line : Nat) (stack : List Frame)
    (state : State) : Config :=
  match callee with
  | .function function => enterFunction function arguments line stack state
  | .native native => callNative native arguments line stack state
  | .klass c => construct c arguments line stack state
  | _ => failed (.notCallable line) stack state

def call (callee : Value) (paren : Token) (arguments : List Value) (stack : List Frame)
    (state : State) : Config :=
  match callee.arity? with
  | none => failed (.notCallable paren.line) stack state
  | some arity =>
    if arguments.length = arity then apply callee arguments paren.line stack state
    else failed (.arityMismatch arity arguments.length paren.line) stack state

/-- The next argument, or the call once there is none. -/
def nextArgument (callee : Value) (paren : Token) (evaluated : List Value) (stack : List Frame)
    (state : State) : List Expr → Config
  | [] => call callee paren evaluated.reverse stack state
  | pending :: rest => ⟨.eval pending, .argument callee paren evaluated rest :: stack, state⟩

/-- What a call gives: an initializer always gives the instance it was called on. -/
def finishCall (function : Function) (line : Nat) (result : Value) (stack : List Frame)
    (state : State) : Config :=
  if function.isInitializer then
    match state.store.getAt? function.closure 0 thisName with
    | some receiver => done receiver stack state
    | none => failed (.undefinedVariable thisName line) stack state
  else done result stack state

/-! ### Properties -/

def getProperty (object : Value) (name : Token) (stack : List Frame) (state : State) : Config :=
  match object with
  | .object i =>
    let (result, state) := state.property i name
    ofExcept result stack state
  | _ => failed (.notAnInstance .property name.line) stack state

/-- The superclass's method on the receiver of the method this stands in. The receiver is always one
scope inside the superclass. -/
def superMethod (reference : Reference) (method : Token) (stack : List Frame) (state : State) :
    Config :=
  let keyword := reference.name
  match state.distance? reference with
  | none => undefined keyword stack state
  | some distance =>
    match state.store.getAt? state.current distance keyword.lexeme with
    | none => undefined keyword stack state
    | some (.klass above) =>
      match state.store.getAt? state.current (distance - 1) thisName with
      | none => failed (.undefinedVariable thisName keyword.line) stack state
      | some (.object receiver) =>
        match above.findMethod? method.lexeme with
        | none => failed (.undefinedProperty method.lexeme method.line) stack state
        | some found =>
          let (bound, state) := state.bindMethod found receiver
          done (.function bound) stack state
      | some _ => failed (.notAnInstance .property keyword.line) stack state
    | some _ => failed (.invalidSuperclass keyword.line) stack state

/-! ### Expressions and statements -/

def readName (reference : Reference) (stack : List Frame) (state : State) : Config :=
  match state.lookup? reference with
  | some value => done value stack state
  | none => undefined reference.name stack state

def writeName (target : Reference) (value : Value) (stack : List Frame) (state : State) : Config :=
  match state.slot? target with
  | some scope => done value stack (state.write scope target.name.lexeme value)
  | none => undefined target.name stack state

def eval (expr : Expr) (stack : List Frame) (state : State) : Config :=
  match expr with
  | .literal literal => done (.ofLiteral literal) stack state
  | .unary operator operand => ⟨.eval operand, .unary operator :: stack, state⟩
  | .binary left operator right => ⟨.eval left, .left operator right :: stack, state⟩
  | .logical left operator right => ⟨.eval left, .logical operator right :: stack, state⟩
  | .grouping inner => ⟨.eval inner, stack, state⟩
  | .variable reference => readName reference stack state
  | .assign target value => ⟨.eval value, .assign target :: stack, state⟩
  | .call callee paren arguments => ⟨.eval callee, .callee paren arguments :: stack, state⟩
  | .get object name => ⟨.eval object, .property name :: stack, state⟩
  | .set object name value => ⟨.eval object, .target name value :: stack, state⟩
  | .this reference => readName reference stack state
  | .super reference method => superMethod reference method stack state

def declareFunction (declaration : FunctionDecl) (stack : List Frame) (state : State) : Config :=
  let (function, state) := state.close declaration false
  done .nil stack (state.define function.name (.function function))

def declareClass (name : Token) (superclass : Option Reference) (methods : List FunctionDecl)
    (stack : List Frame) (state : State) : Config :=
  match superclass with
  | none => done .nil stack (state.declareClass name none methods)
  | some reference =>
    match state.lookup? reference with
    | none => undefined reference.name stack state
    | some (.klass above) => done .nil stack (state.declareClass name (some above) methods)
    | some _ => failed (.invalidSuperclass reference.name.line) stack state

def exec (stmt : Stmt) (stack : List Frame) (state : State) : Config :=
  match stmt with
  | .expression expr => ⟨.eval expr, stack, state⟩
  | .print expr => ⟨.eval expr, .print :: stack, state⟩
  | .var name none => done .nil stack (state.define name.lexeme .nil)
  | .var name (some initializer) => ⟨.eval initializer, .define name :: stack, state⟩
  | .block body =>
    let outside := state.current
    done .nil (.sequence body :: .restore outside :: stack) (state.enter outside .empty)
  | .conditional condition thenBranch elseBranch =>
    ⟨.eval condition, .branch thenBranch elseBranch :: stack, state⟩
  | .loop condition body => ⟨.eval condition, .test condition body :: stack, state⟩
  | .function declaration => declareFunction declaration stack state
  | .ret _ none => ⟨.signal (.returned .nil), stack, state⟩
  | .ret _ (some value) => ⟨.eval value, .returning :: stack, state⟩
  | .classDecl name superclass methods => declareClass name superclass methods stack state

/-! ### Frames -/

/-- The next of several statements, under a frame that keeps the others. -/
def proceed (later : List Stmt → Frame) (stack : List Frame) (state : State) :
    List Stmt → Config
  | [] => done .nil stack state
  | next :: rest => ⟨.exec next, later rest :: stack, state⟩

/-- What a frame does with the value it waited for. -/
def resume (value : Value) (stack : List Frame) (state : State) : Frame → Config
  | .unary operator => ofExcept (applyUnary operator value) stack state
  | .left operator right => ⟨.eval right, .right value operator :: stack, state⟩
  | .right left operator => ofExcept (applyBinary operator left value) stack state
  | .logical operator right =>
    if settles operator value then done value stack state else ⟨.eval right, stack, state⟩
  | .assign target => writeName target value stack state
  | .callee paren arguments => nextArgument value paren [] stack state arguments
  | .argument callee paren evaluated pending =>
    nextArgument callee paren (value :: evaluated) stack state pending
  | .property name => getProperty value name stack state
  | .target name expr =>
    match value with
    | .object object => ⟨.eval expr, .field object name :: stack, state⟩
    | _ => failed (.notAnInstance .field name.line) stack state
  | .field object name => done value stack (state.setField object name.lexeme value)
  | .print => done .nil stack (state.print value.text)
  | .define name => done .nil stack (state.define name.lexeme value)
  | .branch thenBranch elseBranch =>
    if value.isTruthy then ⟨.exec thenBranch, stack, state⟩
    else match elseBranch with
      | some elseBranch => ⟨.exec elseBranch, stack, state⟩
      | none => done .nil stack state
  | .test condition body =>
    if value.isTruthy then ⟨.exec body, .again condition body :: stack, state⟩
    else done .nil stack state
  | .again condition body => ⟨.eval condition, .test condition body :: stack, state⟩
  | .returning => ⟨.signal (.returned value), stack, state⟩
  | .sequence rest => proceed .sequence stack state rest
  | .restore previous => done .nil stack (state.withCurrent previous)
  | .activation caller function line =>
    finishCall function line .nil stack (state.withCurrent caller)
  | .constructing made => done (.object made) stack state
  | .program rest => proceed .program stack state rest

/-- What a frame undoes when it is left before its time. -/
def leave (state : State) : Frame → State
  | .restore previous => state.withCurrent previous
  | .activation caller _ _ => state.withCurrent caller
  | _ => state

/-- A return ends the call it stands in. Outside of all calls it ends one statement. -/
def unwind (value : Value) (stack : List Frame) (state : State) : Frame → Config
  | .activation caller function line =>
    finishCall function line value stack (state.withCurrent caller)
  | .program rest => proceed .program stack state rest
  | frame => ⟨.signal (.returned value), stack, leave state frame⟩

def deliver (signal : Signal) (frame : Frame) (stack : List Frame) (state : State) : Config :=
  match signal with
  | .done value => resume value stack state frame
  | .returned value => unwind value stack state frame
  | .failed fault => failed fault stack (leave state frame)

/-- A finished program stays as it is. -/
def step : Config → Config
  | ⟨.eval expr, stack, state⟩ => eval expr stack state
  | ⟨.exec stmt, stack, state⟩ => exec stmt stack state
  | ⟨.signal signal, frame :: stack, state⟩ => deliver signal frame stack state
  | ⟨.signal signal, [], state⟩ => ⟨.signal signal, [], state⟩

end Lox.Machine
