import Lox.Tree.Expression

/-!
Statements, declarations and whole programs. A declaration that cannot be read is complained of once
and skipped up to where the next one is likely to start, so one pass finds every such place.
-/

namespace Lox.Tree.Parser

/-- The rules a statement is made of. -/
structure Rules where
  bound : Nat
  expression : Parser Expr
  statement : Parser Stmt
  /-- Gives nothing where the declaration could not be read. -/
  declaration : Parser (Option Stmt)

variable (rules : Rules)

/-- Declarations up to the end or up to a token of a given kind. -/
def declarations (declaration : Parser (Option Stmt)) (stop : Parser Bool) :
    Nat → Parser (List Stmt)
  | 0 => return []
  | bound + 1 => do
    if ← atEnd then return []
    else if ← stop then return []
    else
      let first ← declaration
      return first.toList ++ (← declarations declaration stop bound)

def block : Parser (List Stmt) := do
  let body ← declarations rules.declaration (sees (.symbol .rightBrace)) rules.bound
  let _ ← expect .rightBrace "after block"
  return body

def function (role : String) : Parser FunctionDecl := do
  let name ← expectName (role ++ " name")
  let _ ← expect .leftParen ("after " ++ role ++ " name")
  let params ← listed rules.bound "parameters" (expectName "parameter name")
  let _ ← expect .rightParen "after parameters"
  let _ ← expect .leftBrace ("before " ++ role ++ " body")
  return { name, params, body := ← block rules }

def methods : Nat → Parser (List FunctionDecl)
  | 0 => return []
  | bound + 1 => do
    if ← atEnd then return []
    else if ← sees (.symbol .rightBrace) then return []
    else
      let first ← function rules "method"
      return first :: (← methods bound)

def superclass : Parser (Option Reference) := do
  if ← accept (.symbol .less) then
    let name ← expectName "superclass name"
    return some (← reference name)
  else return none

def classDeclaration : Parser Stmt := do
  let name ← expectName "class name"
  let superclass ← superclass
  let _ ← expect .leftBrace "before class body"
  let methods ← methods rules rules.bound
  let _ ← expect .rightBrace "after class body"
  return .classDecl name superclass methods

def varDeclaration : Parser Stmt := do
  let name ← expectName "variable name"
  let initializer ← if ← accept (.symbol .equal) then some <$> rules.expression else pure none
  let _ ← expect .semicolon "after variable declaration"
  return .var name initializer

def expressionStatement : Parser Stmt := do
  let expr ← rules.expression
  let _ ← expect .semicolon "after expression"
  return .expression expr

def printStatement : Parser Stmt := do
  let expr ← rules.expression
  let _ ← expect .semicolon "after value"
  return .print expr

/-- An expression, unless the symbol that would follow it comes first. -/
def optionalUnless (closing : Symbol) : Parser (Option Expr) := do
  if ← sees (.symbol closing) then return none
  else some <$> rules.expression

def returnStatement (keyword : Token) : Parser Stmt := do
  let value ← optionalUnless rules .semicolon
  let _ ← expect .semicolon "after return value"
  return .ret keyword value

def ifStatement : Parser Stmt := do
  let _ ← expect .leftParen "after 'if'"
  let condition ← rules.expression
  let _ ← expect .rightParen "after if condition"
  let thenBranch ← rules.statement
  let elseBranch ← if ← accept (.keyword .else) then some <$> rules.statement else pure none
  return .conditional condition thenBranch elseBranch

def whileStatement : Parser Stmt := do
  let _ ← expect .leftParen "after 'while'"
  let condition ← rules.expression
  let _ ← expect .rightParen "after condition"
  return .loop condition (← rules.statement)

def forInitializer : Parser (Option Stmt) := do
  if ← accept (.symbol .semicolon) then return none
  else if ← accept (.keyword .var) then some <$> varDeclaration rules
  else some <$> expressionStatement rules

def forStatement : Parser Stmt := do
  let _ ← expect .leftParen "after 'for'"
  let initializer ← forInitializer rules
  let condition ← optionalUnless rules .semicolon
  let _ ← expect .semicolon "after loop condition"
  let increment ← optionalUnless rules .rightParen
  let _ ← expect .rightParen "after for clauses"
  return .forLoop initializer condition increment (← rules.statement)

def anyStatement : Parser Stmt := do
  if ← accept (.keyword .for) then forStatement rules
  else if ← accept (.keyword .if) then ifStatement rules
  else if ← accept (.keyword .while) then whileStatement rules
  else match ← acceptAny? [.keyword .return] with
    | some keyword => returnStatement rules keyword
    | none =>
      if ← accept (.symbol .leftBrace) then return .block (← block rules)
      else if ← accept (.keyword .print) then printStatement rules
      else expressionStatement rules

def anyDeclaration : Parser Stmt := do
  if ← accept (.keyword .class) then classDeclaration rules
  else if ← accept (.keyword .fun) then return .function (← function rules "function")
  else if ← accept (.keyword .var) then varDeclaration rules
  else anyStatement rules

/-- The keywords a declaration or statement starts with. -/
def openers : List Kind :=
  [.keyword .class, .keyword .fun, .keyword .var, .keyword .for, .keyword .if, .keyword .while,
   .keyword .print, .keyword .return]

/-- The tokens from the next likely start of a declaration on: after a semicolon, or at an
opener. -/
def resync (previous : Token) : List Token → List Token
  | [] => []
  | token :: rest =>
    if previous.kind = .symbol .semicolon then token :: rest
    else if token.kind ∈ openers then token :: rest
    else resync token rest

/-- A declaration that gives up is recorded, the token in its way skipped, and then as many more as
needed. -/
def recover (fault : Fault) (progress : Progress) : Progress where
  rest := match progress.rest with
    | [] => []
    | token :: rest => resync token rest
  endLine := progress.endLine
  nextId := progress.nextId
  faults := progress.faults ++ [fault]

def recovering (declaration : Parser Stmt) : Parser (Option Stmt) := fun progress =>
  match declaration progress with
  | (.ok stmt, progress) => (.ok (some stmt), progress)
  | (.error fault, progress) => (.ok none, recover fault progress)

mutual

/-- With no token left there is no statement, nor the expression one would start with. -/
def statement : Nat → Parser Stmt
  | 0 => giveUp (.missingPhrase "expression")
  | bound + 1 =>
    anyStatement ⟨bound + 1, expression (bound + 1), statement bound, declaration bound⟩

def declaration : Nat → Parser (Option Stmt)
  | 0 => recovering (giveUp (.missingPhrase "expression"))
  | bound + 1 =>
    recovering
      (anyDeclaration ⟨bound + 1, expression (bound + 1), statement bound, declaration bound⟩)

end

/-- Declarations up to the end. -/
def program (bound : Nat) : Parser (List Stmt) :=
  declarations (declaration bound) (pure false) bound

end Parser

/-- The line of the end: that of its token, or of the last token where there is none. -/
def lastLine (tokens : List Token) : Nat :=
  match tokens.find? (·.kind = .eof) with
  | some token => token.line
  | none => (tokens.getLast?.map Token.line).getD 1

/-- Nothing after the end counts. -/
def Progress.start (tokens : List Token) (firstId : Nat) : Progress where
  rest := tokens.takeWhile (·.kind ≠ .eof)
  endLine := lastLine tokens
  nextId := firstId
  faults := []

structure Parsed where
  result : Except (List Fault) (List Stmt)
  nextId : Nat

/-- Numbers references from `firstId` on. A single complaint keeps the whole program back. -/
def parse (tokens : List Token) (firstId : Nat) : Parsed :=
  let start := Progress.start tokens firstId
  let (result, progress) := Parser.program start.rest.length start
  { nextId := progress.nextId
    result := match result, progress.faults with
      | .ok program, [] => .ok program
      | .ok _, faults => .error faults
      | .error fault, faults => .error (faults ++ [fault]) }

end Lox.Tree
