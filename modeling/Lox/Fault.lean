import Lox.Text.Utf8
import Lox.Token

/-!
Everything that can go wrong, by cause. The wording stands in one place per family, and only the
static families keep a program from being run.
-/

namespace Lox

/-- What a scan complains of. `other` is for hosts with a wording of their own. -/
inductive LexComplaint
  | unexpected (c : Char)
  | unterminated
  | other (text : String)
deriving DecidableEq, Repr

def LexComplaint.text : LexComplaint → String
  | .unexpected c => "Unexpected character: " ++ c.toString
  | .unterminated => "Unterminated string."
  | .other text => text

/-- What a parse complains of: a missing symbol, a missing phrase, or a list grown too long. -/
inductive ParseComplaint
  | missing (symbol : Symbol) (place : String)
  | missingPhrase (phrase : String)
  | tooMany (items : String)
  | other (text : String)
deriving DecidableEq, Repr

/-- The greatest number of parameters or arguments. -/
def maxArguments : Nat := 255

def ParseComplaint.text : ParseComplaint → String
  | .missing symbol place => "Expect '" ++ symbol.text ++ "' " ++ place ++ "."
  | .missingPhrase phrase => "Expect " ++ phrase ++ "."
  | .tooMany items => "Can't have more than " ++ toString maxArguments ++ " " ++ items ++ "."
  | .other text => text

/-- Breaches of the rules on scopes, `return`, `this`, `super` and assignment. -/
inductive StaticFault
  | undefinedInInitializer (name : String) (line : Nat)
  | duplicateDeclaration (name : String) (line : Nat)
  | returnOutsideFunction (line : Nat)
  | returnValueInInitializer (line : Nat)
  | thisOutsideClass (line : Nat)
  | superOutsideClass (line : Nat)
  | superWithoutSuperclass (line : Nat)
  | selfInheritance (name : String) (line : Nat)
  | invalidAssignmentTarget (line : Nat)
deriving DecidableEq, Repr

namespace StaticFault

def line : StaticFault → Nat
  | undefinedInInitializer _ line | duplicateDeclaration _ line | returnOutsideFunction line
  | returnValueInInitializer line | thisOutsideClass line | superOutsideClass line
  | superWithoutSuperclass line | selfInheritance _ line | invalidAssignmentTarget line => line

/-- The word the fault points at. -/
def culprit : StaticFault → String
  | undefinedInInitializer name _ | duplicateDeclaration name _ | selfInheritance name _ => name
  | returnOutsideFunction _ | returnValueInInitializer _ => "return"
  | thisOutsideClass _ => "this"
  | superOutsideClass _ | superWithoutSuperclass _ => "super"
  | invalidAssignmentTarget _ => "="

def text : StaticFault → String
  | undefinedInInitializer .. => "Can't read local variable in its own initializer."
  | duplicateDeclaration .. => "Already a variable with this name in this scope."
  | returnOutsideFunction _ => "Can't return from top-level code."
  | returnValueInInitializer _ => "Can't return a value from an initializer."
  | thisOutsideClass _ => "Can't use 'this' outside of a class."
  | superOutsideClass _ => "Can't use 'super' outside of a class."
  | superWithoutSuperclass _ => "Can't use 'super' in a class with no superclass."
  | selfInheritance .. => "A class can't inherit from itself."
  | invalidAssignmentTarget _ => "Invalid assignment target."

end StaticFault

/-- What an operator needs of its operands. -/
inductive OperandRule
  | number
  | numbers
  | numbersOrStrings
deriving DecidableEq, Repr

def OperandRule.text : OperandRule → String
  | .number => "Operand must be a number."
  | .numbers => "Operands must be numbers."
  | .numbersOrStrings => "Operands must be two numbers or two strings."

/-- What only an instance has. -/
inductive InstanceUse
  | property
  | field
deriving DecidableEq, Repr

def InstanceUse.text : InstanceUse → String
  | .property => "Only instances have properties."
  | .field => "Only instances have fields."

inductive RuntimeFault
  | undefinedVariable (name : String) (line : Nat)
  | undefinedProperty (name : String) (line : Nat)
  | notCallable (line : Nat)
  | arityMismatch (expected got : Nat) (line : Nat)
  | typeMismatch (rule : OperandRule) (line : Nat)
  | notAnInstance (use : InstanceUse) (line : Nat)
  | invalidSuperclass (line : Nat)
  | native (name text : String) (line : Nat)
deriving DecidableEq, Repr

namespace RuntimeFault

def line : RuntimeFault → Nat
  | undefinedVariable _ line | undefinedProperty _ line | notCallable line
  | arityMismatch _ _ line | typeMismatch _ line | notAnInstance _ line
  | invalidSuperclass line | native _ _ line => line

def text : RuntimeFault → String
  | undefinedVariable name _ => s!"Undefined variable '{name}'."
  | undefinedProperty name _ => s!"Undefined property '{name}'."
  | notCallable _ => "Can only call functions and classes."
  | arityMismatch expected got _ => s!"Expected {expected} arguments but got {got}."
  | typeMismatch rule _ => rule.text
  | notAnInstance use _ => use.text
  | invalidSuperclass _ => "Superclass must be a class."
  | native name text _ => s!"{name}: {text}"

def message (fault : RuntimeFault) : String :=
  s!"{fault.text}\n[line {fault.line}]"

end RuntimeFault

inductive Fault
  | lex (line : Nat) (complaint : LexComplaint)
  /-- `location` is the lexeme found instead, and absent at the end of the tokens. -/
  | parse (line : Nat) (location : Option String) (complaint : ParseComplaint)
  | static (fault : StaticFault)
  | runtime (fault : RuntimeFault)
  | io (message : String)
  | utf8 (fault : Text.Utf8.Fault)
deriving DecidableEq, Repr

namespace Fault

def line? : Fault → Option Nat
  | lex line _ | parse line _ _ => some line
  | static fault => some fault.line
  | runtime fault => some fault.line
  | io _ | utf8 _ => none

def isStatic : Fault → Bool
  | lex .. | parse .. | static _ => true
  | runtime _ | io _ | utf8 _ => false

def message : Fault → String
  | lex line complaint => s!"[line {line}] Error: {complaint.text}"
  | parse line none complaint => s!"[line {line}] Error at end: {complaint.text}"
  | parse line (some lexeme) complaint => s!"[line {line}] Error at '{lexeme}': {complaint.text}"
  | static fault => s!"[line {fault.line}] Error at '{fault.culprit}': {fault.text}"
  | runtime fault => fault.message
  | io message => message
  | utf8 fault => fault.message

end Fault
end Lox
