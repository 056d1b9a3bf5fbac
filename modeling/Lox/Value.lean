import Lox.Bindings
import Lox.Decimal.Layout
import Lox.Tree

/-!
What a program computes with. Functions, classes and instances are told apart by an identity they
are given when they are made, so two of them are equal only if they are one and the same.
-/

namespace Lox

/-- A scope seen from inside: its address, and those of the scopes around it, nearest first. -/
structure Environment where
  scope : Nat
  outer : List Nat
deriving DecidableEq, Repr

namespace Environment

def scopes (environment : Environment) : List Nat := environment.scope :: environment.outer

def enclosing? (environment : Environment) : Option Environment :=
  match environment.outer with
  | [] => none
  | scope :: outer => some ⟨scope, outer⟩

/-- The environment so many scopes out. -/
def ancestor? (environment : Environment) : Nat → Option Environment
  | 0 => some environment
  | distance + 1 => environment.enclosing?.bind (·.ancestor? distance)

/-- A scope inside another. -/
def within (outer : Environment) (scope : Nat) : Environment := ⟨scope, outer.scopes⟩

end Environment

structure Function where
  identity : Nat
  declaration : FunctionDecl
  closure : Environment
  isInitializer : Bool

def Function.name (function : Function) : String := function.declaration.name.lexeme

def Function.arity (function : Function) : Nat := function.declaration.params.length

/-- A function of the host's. What it does is kept by the machine, under its identity. -/
structure Native where
  identity : Nat
  name : String
  arity : Nat

/-- What one class declares itself. -/
structure Layer where
  identity : Nat
  name : String
  methods : Bindings Function

/-- A class and the classes it inherits from, nearest first. -/
structure Class where
  own : Layer
  inherited : List Layer

namespace Class

def layers (c : Class) : List Layer := c.own :: c.inherited

def name (c : Class) : String := c.own.name

def superclass? (c : Class) : Option Class :=
  match c.inherited with
  | [] => none
  | own :: inherited => some ⟨own, inherited⟩

/-- The method of the nearest class that declares it. -/
def findMethod? (c : Class) (name : String) : Option Function :=
  c.layers.findSome? (·.methods.find? name)

def initializer? (c : Class) : Option Function := c.findMethod? initializerName

/-- Making an instance takes the arguments of its initializer. -/
def arity (c : Class) : Nat := (c.initializer?.map Function.arity).getD 0

end Class

/-- Its fields are kept in the store, under its identity. -/
structure Instance where
  identity : Nat
  ofClass : Class

inductive Value
  | nil
  | bool (value : Bool)
  | number (value : Float)
  | string (text : String)
  | function (function : Function)
  | native (native : Native)
  | klass (c : Class)
  | object (i : Instance)

namespace Value

def ofLiteral : Literal → Value
  | .number value => number value
  | .string text => string text
  | .true => bool true
  | .false => bool false
  | .nil => nil

def typeName : Value → String
  | nil => "nil"
  | bool _ => "bool"
  | number _ => "number"
  | string _ => "string"
  | function _ => "function"
  | native _ => "native"
  | klass _ => "class"
  | object _ => "instance"

/-- What `print` shows. -/
def text : Value → String
  | nil => "nil"
  | bool b => if b then "true" else "false"
  | number x => Decimal.text x
  | string s => s
  | function f => "<fn " ++ f.name ++ ">"
  | native _ => "<native fn>"
  | klass c => c.name
  | object i => i.ofClass.name ++ " instance"

/-- Only `nil` and `false` do not hold. -/
def isTruthy : Value → Bool
  | nil => false
  | bool b => b
  | _ => true

/-- Numbers are compared as numbers: one that is none differs from itself. -/
def equals : Value → Value → Bool
  | nil, nil => true
  | bool a, bool b => a == b
  | number a, number b => a == b
  | string a, string b => a == b
  | function a, function b => a.identity == b.identity
  | native a, native b => a.identity == b.identity
  | klass a, klass b => a.own.identity == b.own.identity
  | object a, object b => a.identity == b.identity
  | _, _ => false

/-- The number of arguments a call takes, for what can be called. -/
def arity? : Value → Option Nat
  | function f => some f.arity
  | native f => some f.arity
  | klass c => some c.arity
  | _ => none

end Value
end Lox
