import Lox.Machine.State

/-!
A program under way: what is being looked at, what is still to be done with it, and the state. Each
frame waits for one thing to finish, and the frame on top is the one that gets it.
-/

namespace Lox.Machine

/-- How an expression or a statement ends. A statement that runs to its end is done with a value
that nobody looks at. -/
inductive Signal
  | done (value : Value)
  /-- On its way out of the body of the call it ends. -/
  | returned (value : Value)
  | failed (fault : RuntimeFault)

inductive Control
  | eval (expr : Expr)
  | exec (stmt : Stmt)
  | signal (signal : Signal)

inductive Frame
  | unary (operator : Token)
  | left (operator : Token) (right : Expr)
  | right (left : Value) (operator : Token)
  | logical (operator : Token) (right : Expr)
  | assign (target : Reference)
  | callee (paren : Token) (arguments : List Expr)
  /-- The arguments evaluated so far stand last first. -/
  | argument (callee : Value) (paren : Token) (evaluated : List Value) (pending : List Expr)
  | property (name : Token)
  | target (name : Token) (value : Expr)
  | field (object : Instance) (name : Token)
  | print
  | define (name : Token)
  | branch (thenBranch : Stmt) (elseBranch : Option Stmt)
  /-- The condition of a loop is being evaluated. -/
  | test (condition : Expr) (body : Stmt)
  /-- The body of a loop is being executed. -/
  | again (condition : Expr) (body : Stmt)
  | returning
  | sequence (rest : List Stmt)
  /-- The end of a block, which puts the environment before it back in force. -/
  | restore (previous : Environment)
  /-- The end of a call, at a given line, and the caller's environment. -/
  | activation (caller : Environment) (function : Function) (line : Nat)
  /-- The end of the initializer of an instance. -/
  | constructing (made : Instance)
  /-- The statements of a program after the one being executed. -/
  | program (rest : List Stmt)

structure Config where
  control : Control
  stack : List Frame
  state : State

namespace Config

def done (value : Value) (stack : List Frame) (state : State) : Config :=
  ⟨.signal (.done value), stack, state⟩

def failed (fault : RuntimeFault) (stack : List Frame) (state : State) : Config :=
  ⟨.signal (.failed fault), stack, state⟩

def ofExcept (result : Except RuntimeFault Value) (stack : List Frame) (state : State) : Config :=
  match result with
  | .ok value => done value stack state
  | .error fault => failed fault stack state

/-- A name that has no value here. -/
def undefined (name : Token) (stack : List Frame) (state : State) : Config :=
  failed (.undefinedVariable name.lexeme name.line) stack state

/-- The end of the program, or what it does next. -/
def finished? : Config → Option (Signal × State)
  | ⟨.signal signal, [], state⟩ => some (signal, state)
  | _ => none

end Config
end Lox.Machine
