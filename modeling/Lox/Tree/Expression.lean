import Lox.Tree.Parser

/-!
Expressions, from the tightest operators to the loosest. A rule takes the rule for a whole
expression as a parameter and uses it only after it has read a token, so the tokens left bound how
deep the rules go (`expression`).
-/

namespace Lox.Tree.Parser

def literal? : Kind → Option Literal
  | .keyword .false => some .false
  | .keyword .true => some .true
  | .keyword .nil => some .nil
  | .number value => some (.number value)
  | .string text => some (.string text)
  | _ => none

def superExpr (keyword : Token) : Parser Expr := do
  let _ ← expect .dot "after 'super'"
  let method ← expectName "superclass method name"
  return .super (← reference keyword) method

def groupingExpr (whole : Parser Expr) : Parser Expr := do
  let inner ← whole
  let _ ← expect .rightParen "after expression"
  return .grouping inner

/-- What a token starts that is no operator's. -/
def primaryOf? (whole : Parser Expr) (token : Token) : Option (Parser Expr) :=
  match token.kind with
  | .keyword .super => some (superExpr token)
  | .keyword .this => some (Expr.this <$> reference token)
  | .identifier => some (Expr.variable <$> reference token)
  | .symbol .leftParen => some (groupingExpr whole)
  | kind => (literal? kind).map fun literal => return .literal literal

def primary (whole : Parser Expr) : Parser Expr := do
  match (← peek?).bind (primaryOf? whole) with
  | some rest => skip; rest
  | none => giveUp (.missingPhrase "expression")

/-- Calls and properties after what they belong to. -/
def postfixes (whole : Parser Expr) : Nat → Expr → Parser Expr
  | 0, expr => return expr
  | bound + 1, expr => do
    if ← accept (.symbol .leftParen) then
      let arguments ← listed bound "arguments" whole
      let paren ← expect .rightParen "after arguments"
      postfixes whole bound (.call expr paren arguments)
    else if ← accept (.symbol .dot) then
      let name ← expectName "property name after '.'"
      postfixes whole bound (.get expr name)
    else return expr

variable (bound : Nat) (whole : Parser Expr)

def call : Parser Expr := do
  postfixes whole bound (← primary whole)

/-- The operators in front of an operand, outermost first. -/
def signs : Nat → Parser (List Token)
  | 0 => return []
  | bound + 1 => do
    match ← acceptAny? [.symbol .bang, .symbol .minus] with
    | some operator => return operator :: (← signs bound)
    | none => return []

def unary : Parser Expr := do
  let operators ← signs bound
  return operators.foldr Expr.unary (← call bound whole)

def factor : Parser Expr :=
  leftAssoc bound [.symbol .star, .symbol .slash] Expr.binary (unary bound whole)

def term : Parser Expr :=
  leftAssoc bound [.symbol .minus, .symbol .plus] Expr.binary (factor bound whole)

def comparison : Parser Expr :=
  leftAssoc bound [.symbol .greater, .symbol .greaterEqual, .symbol .less, .symbol .lessEqual]
    Expr.binary (term bound whole)

def equality : Parser Expr :=
  leftAssoc bound [.symbol .bangEqual, .symbol .equalEqual] Expr.binary (comparison bound whole)

def conjunction : Parser Expr :=
  leftAssoc bound [.keyword .and] Expr.logical (equality bound whole)

def disjunction : Parser Expr :=
  leftAssoc bound [.keyword .or] Expr.logical (conjunction bound whole)

/-- The assignment to what stands left of an equals sign. A target that takes no value is
complained of and stands alone. -/
def assignTo (target : Expr) (equals : Token) (value : Expr) : Parser Expr := do
  match target with
  | .variable use => return .assign (← reference use.name) value
  | .get object name => return .set object name value
  | other =>
    record (.static (.invalidAssignmentTarget equals.line))
    return other

def assignment : Parser Expr := do
  let target ← disjunction bound whole
  match ← acceptAny? [.symbol .equal] with
  | some equals => assignTo target equals (← whole)
  | none => return target

/-- With no token left there is no expression. -/
def expression : Nat → Parser Expr
  | 0 => giveUp (.missingPhrase "expression")
  | bound + 1 => assignment (bound + 1) (expression bound)

end Lox.Tree.Parser
