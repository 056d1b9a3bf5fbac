import Mathlib
import Lox.Proofs.References

/-! Programs written back as the words they are read from, and the shape that the precedence of
operators gives to a tree. -/

namespace Lox

/-! ### Words -/

/-- What a token says. The lexeme counts only where it is a name. -/
inductive Word
  | sign (kind : Kind)
  | name (lexeme : String)
deriving DecidableEq

abbrev Word.symbol (symbol : Symbol) : Word := .sign (.symbol symbol)

abbrev Word.keyword (keyword : Keyword) : Word := .sign (.keyword keyword)

def Token.word (token : Token) : Word :=
  if token.kind = .identifier then .name token.lexeme else .sign token.kind

/-- A list with commas between its items. -/
def commas (items : List (List Word)) : List Word := List.intercalate [.symbol .comma] items

def Literal.kind : Literal → Kind
  | .number value => .number value
  | .string text => .string text
  | .true => .keyword .true
  | .false => .keyword .false
  | .nil => .keyword .nil

mutual

/-- An expression in words. Parentheses stand around groupings and arguments, and nowhere else. -/
def Expr.words : Expr → List Word
  | .literal literal => [.sign literal.kind]
  | .unary operator operand => operator.word :: operand.words
  | .binary left operator right => left.words ++ operator.word :: right.words
  | .logical left operator right => left.words ++ operator.word :: right.words
  | .grouping inner => .symbol .leftParen :: inner.words ++ [.symbol .rightParen]
  | .variable reference => [.name reference.name.lexeme]
  | .assign target value => .name target.name.lexeme :: .symbol .equal :: value.words
  | .call callee _ arguments =>
    callee.words ++ .symbol .leftParen :: commas (exprsWords arguments) ++ [.symbol .rightParen]
  | .get object name => object.words ++ [.symbol .dot, .name name.lexeme]
  | .set object name value =>
    object.words ++ .symbol .dot :: .name name.lexeme :: .symbol .equal :: value.words
  | .this _ => [.keyword .this]
  | .super _ method => [.keyword .super, .symbol .dot, .name method.lexeme]

def exprsWords : List Expr → List (List Word)
  | [] => []
  | first :: rest => first.words :: exprsWords rest

end

/-- An expression that may be left out, with the sign before it. -/
def optionalWords (before : List Word) : Option Expr → List Word
  | none => []
  | some e => before ++ e.words

def superclassWords : Option Reference → List Word
  | none => []
  | some reference => [.symbol .less, .name reference.name.lexeme]

def paramsWords (params : List Token) : List (List Word) := params.map fun param => [.name param.lexeme]

mutual

def Stmt.words : Stmt → List Word
  | .expression e => e.words ++ [.symbol .semicolon]
  | .print e => .keyword .print :: e.words ++ [.symbol .semicolon]
  | .var name initializer =>
    .keyword .var :: .name name.lexeme :: optionalWords [.symbol .equal] initializer ++
      [.symbol .semicolon]
  | .block body => .symbol .leftBrace :: stmtsWords body ++ [.symbol .rightBrace]
  | .conditional condition thenBranch elseBranch =>
    .keyword .if :: .symbol .leftParen :: condition.words ++ .symbol .rightParen ::
      thenBranch.words ++ elseWords elseBranch
  | .loop condition body =>
    .keyword .while :: .symbol .leftParen :: condition.words ++ .symbol .rightParen :: body.words
  | .function declaration => .keyword .fun :: declaration.words
  | .ret _ value => .keyword .return :: optionalWords [] value ++ [.symbol .semicolon]
  | .classDecl name superclass methods =>
    .keyword .class :: .name name.lexeme :: superclassWords superclass ++ .symbol .leftBrace ::
      methodsWords methods ++ [.symbol .rightBrace]

def stmtsWords : List Stmt → List Word
  | [] => []
  | first :: rest => first.words ++ stmtsWords rest

def elseWords : Option Stmt → List Word
  | none => []
  | some s => .keyword .else :: s.words

def FunctionDecl.words : FunctionDecl → List Word
  | ⟨name, params, body⟩ =>
    .name name.lexeme :: .symbol .leftParen :: commas (paramsWords params) ++
      .symbol .rightParen :: .symbol .leftBrace :: stmtsWords body ++ [.symbol .rightBrace]

def methodsWords : List FunctionDecl → List Word
  | [] => []
  | first :: rest => first.words ++ methodsWords rest

end

attribute [simp] Expr.words Stmt.words stmtsWords elseWords FunctionDecl.words methodsWords

@[simp] theorem exprsWords_eq (es : List Expr) : exprsWords es = es.map Expr.words := by
  induction es with
  | nil => rfl
  | cons first rest ih => rw [exprsWords, ih, List.map_cons]

theorem word_of_identifier {token : Token} (kind : token.kind = .identifier) :
    token.word = .name token.lexeme := if_pos kind

theorem word_of_symbol {token : Token} {symbol : Symbol} (kind : token.kind = .symbol symbol) :
    token.word = .symbol symbol := by
  simp [Token.word, kind]

theorem word_of_keyword {token : Token} {keyword : Keyword}
    (kind : token.kind = .keyword keyword) : token.word = .keyword keyword := by
  simp [Token.word, kind]

theorem word_of_literal {token : Token} {literal : Literal} (kind : token.kind = literal.kind) :
    token.word = .sign literal.kind := by
  cases literal <;> simp [Token.word, kind, Literal.kind]

/-! ### Shape -/

/-- How tightly an expression holds together, from the loosest to the tightest. -/
inductive Level
  | assignment | disjunction | conjunction | equality | comparison | term | factor | unary | call
  | primary
deriving DecidableEq, Repr

def Level.rank : Level → Nat
  | .assignment => 0 | .disjunction => 1 | .conjunction => 2 | .equality => 3 | .comparison => 4
  | .term => 5 | .factor => 6 | .unary => 7 | .call => 8 | .primary => 9

theorem Level.rank_injective : Function.Injective Level.rank := by
  intro first second same
  cases first <;> cases second <;> first | rfl | cases same

instance : LinearOrder Level := LinearOrder.lift' Level.rank Level.rank_injective

def binaryLevel? : Kind → Option Level
  | .symbol .bangEqual | .symbol .equalEqual => some .equality
  | .symbol .greater | .symbol .greaterEqual | .symbol .less | .symbol .lessEqual =>
    some .comparison
  | .symbol .minus | .symbol .plus => some .term
  | .symbol .star | .symbol .slash => some .factor
  | _ => none

def logicalLevel? : Kind → Option Level
  | .keyword .or => some .disjunction
  | .keyword .and => some .conjunction
  | _ => none

/-- Operators that no level has hold nothing together. -/
def Expr.level : Expr → Level
  | .assign _ _ | .set _ _ _ => .assignment
  | .logical _ operator _ => (logicalLevel? operator.kind).getD .assignment
  | .binary _ operator _ => (binaryLevel? operator.kind).getD .assignment
  | .unary _ _ => .unary
  | .call _ _ _ | .get _ _ => .call
  | .literal _ | .grouping _ | .variable _ | .this _ | .super _ _ => .primary

/-- Operators of one level group to the left: on their right there are only tighter ones. -/
def Groups (level? : Option Level) (left right : Expr) : Prop :=
  ∃ level, level? = some level ∧ level ≤ left.level ∧ level < right.level

mutual

/-- The operators are where their precedence has them, so that what is looser than its surroundings
stands in parentheses, between commas, or on the right of an equals sign. -/
def Expr.Shaped : Expr → Prop
  | .literal _ | .variable _ | .this _ | .super _ _ => True
  | .unary operator operand =>
    operator.kind ∈ [.symbol .bang, .symbol .minus] ∧ .unary ≤ operand.level ∧ operand.Shaped
  | .binary left operator right =>
    Groups (binaryLevel? operator.kind) left right ∧ left.Shaped ∧ right.Shaped
  | .logical left operator right =>
    Groups (logicalLevel? operator.kind) left right ∧ left.Shaped ∧ right.Shaped
  | .grouping inner => inner.Shaped
  | .assign _ value => value.Shaped
  | .call callee _ arguments => .call ≤ callee.level ∧ callee.Shaped ∧ exprsShaped arguments
  | .get object _ => .call ≤ object.level ∧ object.Shaped
  | .set object _ value => .call ≤ object.level ∧ object.Shaped ∧ value.Shaped

def exprsShaped : List Expr → Prop
  | [] => True
  | first :: rest => first.Shaped ∧ exprsShaped rest

end

def optionalShaped : Option Expr → Prop
  | none => True
  | some e => e.Shaped

mutual

/-- What hangs on a condition declares nothing, and a superclass is a variable. -/
def Stmt.Shaped : Stmt → Prop
  | .expression e | .print e => e.Shaped
  | .var _ initializer => optionalShaped initializer
  | .block body => stmtsShaped body
  | .conditional condition thenBranch elseBranch =>
    condition.Shaped ∧ (thenBranch.Shaped ∧ thenBranch.declared? = none) ∧ elseShaped elseBranch
  | .loop condition body => condition.Shaped ∧ body.Shaped ∧ body.declared? = none
  | .function declaration => declaration.Shaped
  | .ret _ value => optionalShaped value
  | .classDecl _ superclass methods =>
    (∀ reference ∈ superclass, reference.name.kind = .identifier) ∧ methodsShaped methods

def stmtsShaped : List Stmt → Prop
  | [] => True
  | first :: rest => first.Shaped ∧ stmtsShaped rest

def elseShaped : Option Stmt → Prop
  | none => True
  | some s => s.Shaped ∧ s.declared? = none

def FunctionDecl.Shaped : FunctionDecl → Prop
  | ⟨_, _, body⟩ => stmtsShaped body

def methodsShaped : List FunctionDecl → Prop
  | [] => True
  | first :: rest => first.Shaped ∧ methodsShaped rest

end

theorem exprsShaped_iff (es : List Expr) : exprsShaped es ↔ ∀ e ∈ es, e.Shaped := by
  induction es with
  | nil => simp [exprsShaped]
  | cons first rest ih => simp [exprsShaped, ih]

end Lox
