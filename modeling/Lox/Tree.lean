import Lox.Token

/-!
Programs as trees. Each use of a variable, of `this` and of `super` has a number of its own, under
which the scope it refers to is recorded.
-/

namespace Lox

inductive Literal
  | number (value : Float)
  | string (text : String)
  | true
  | false
  | nil
deriving DecidableEq

/-- A use of a name. -/
structure Reference where
  id : Nat
  name : Token
deriving DecidableEq

inductive Expr
  | literal (literal : Literal)
  | unary (operator : Token) (operand : Expr)
  | binary (left : Expr) (operator : Token) (right : Expr)
  | logical (left : Expr) (operator : Token) (right : Expr)
  | grouping (inner : Expr)
  | variable (reference : Reference)
  | assign (target : Reference) (value : Expr)
  /-- `paren` closes the argument list. -/
  | call (callee : Expr) (paren : Token) (arguments : List Expr)
  | get (object : Expr) (name : Token)
  | set (object : Expr) (name : Token) (value : Expr)
  | this (reference : Reference)
  | super (reference : Reference) (method : Token)

mutual

inductive Stmt
  | expression (expr : Expr)
  | print (expr : Expr)
  | var (name : Token) (initializer : Option Expr)
  | block (body : List Stmt)
  | conditional (condition : Expr) (thenBranch : Stmt) (elseBranch : Option Stmt)
  | loop (condition : Expr) (body : Stmt)
  | function (declaration : FunctionDecl)
  | ret (keyword : Token) (value : Option Expr)
  | classDecl (name : Token) (superclass : Option Reference) (methods : List FunctionDecl)

/-- A named function or method. Its parameters and its body share one scope. -/
structure FunctionDecl where
  name : Token
  params : List Token
  body : List Stmt

end

/-- The names under which a method finds its receiver and the class it inherits from. -/
def thisName : String := "this"

def superName : String := "super"

/-- The method that is run when an instance is made. -/
def initializerName : String := "init"

def FunctionDecl.isInitializer (method : FunctionDecl) : Bool :=
  method.name.lexeme == initializerName

/-- A loop with clauses is a loop without them: the increment ends the body, a missing condition
holds, and the initializer opens a block around it all. -/
def Stmt.forLoop (initializer : Option Stmt) (condition increment : Option Expr) (body : Stmt) :
    Stmt :=
  let body := match increment with
    | some increment => .block [body, .expression increment]
    | none => body
  let loop := Stmt.loop (condition.getD (.literal .true)) body
  match initializer with
  | some initializer => .block [initializer, loop]
  | none => loop

end Lox
