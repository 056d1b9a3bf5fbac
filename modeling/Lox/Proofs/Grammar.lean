import Mathlib
import Lox.Fault
import Lox.Tree

/-! The grammar of programs, as languages of tokens. What a rule derives is the least solution of
the productions, so nothing is derived but by finitely many of them. -/

namespace Lox.Grammar

open Computability

/-- The left-hand sides. -/
inductive Rule
  | program | declaration | classDecl | funDecl | function | varDecl
  | statement | exprStmt | forStmt | ifStmt | printStmt | returnStmt | whileStmt | block
  | parameters | arguments
  | expression | assignment | logicOr | logicAnd | equality | comparison | term | factor | unary
  | call | primary

/-- One token of one of these kinds. -/
def oneOf (kinds : List Kind) : Language Token := {ts | ∃ token, token.kind ∈ kinds ∧ ts = [token]}

abbrev symbol (symbol : Symbol) : Language Token := oneOf [.symbol symbol]

abbrev keyword (keyword : Keyword) : Language Token := oneOf [.keyword keyword]

abbrev identifier : Language Token := oneOf [.identifier]

abbrev final : Language Token := oneOf [.eof]

def number : Language Token := {ts | ∃ token value, token.kind = .number value ∧ ts = [token]}

def string : Language Token := {ts | ∃ token text, token.kind = .string text ∧ ts = [token]}

def optional (language : Language Token) : Language Token := language + 1

/-- One item or more with commas between them, as many of them as fit. -/
def listOf (fits : Nat → Prop) (item : Language Token) : Language Token :=
  {ts | ∃ more, fits (more + 1) ∧ ts ∈ item * (symbol .comma * item) ^ more}

/-- Operands with operators between them. -/
def operation (operand : Language Token) (operators : List Kind) : Language Token :=
  operand * (oneOf operators * operand)∗

/-- The right-hand sides, in the languages of the rules. -/
def production (fits : Nat → Prop) (of : Rule → Language Token) : Rule → Language Token
  | .program => (of .declaration)∗ * final
  | .declaration => of .classDecl + of .funDecl + of .varDecl + of .statement
  | .classDecl =>
    keyword .class * identifier * optional (symbol .less * identifier) * symbol .leftBrace *
      (of .function)∗ * symbol .rightBrace
  | .funDecl => keyword .fun * of .function
  | .function =>
    identifier * symbol .leftParen * optional (of .parameters) * symbol .rightParen * of .block
  | .varDecl =>
    keyword .var * identifier * optional (symbol .equal * of .expression) * symbol .semicolon
  | .statement =>
    of .exprStmt + of .forStmt + of .ifStmt + of .printStmt + of .returnStmt + of .whileStmt +
      of .block
  | .exprStmt => of .expression * symbol .semicolon
  | .forStmt =>
    keyword .for * symbol .leftParen * (of .varDecl + of .exprStmt + symbol .semicolon) *
      optional (of .expression) * symbol .semicolon * optional (of .expression) *
      symbol .rightParen * of .statement
  | .ifStmt =>
    keyword .if * symbol .leftParen * of .expression * symbol .rightParen * of .statement *
      optional (keyword .else * of .statement)
  | .printStmt => keyword .print * of .expression * symbol .semicolon
  | .returnStmt => keyword .return * optional (of .expression) * symbol .semicolon
  | .whileStmt =>
    keyword .while * symbol .leftParen * of .expression * symbol .rightParen * of .statement
  | .block => symbol .leftBrace * (of .declaration)∗ * symbol .rightBrace
  | .parameters => listOf fits identifier
  | .arguments => listOf fits (of .expression)
  | .expression => of .assignment
  | .assignment =>
    optional (of .call * symbol .dot) * identifier * symbol .equal * of .assignment + of .logicOr
  | .logicOr => operation (of .logicAnd) [.keyword .or]
  | .logicAnd => operation (of .equality) [.keyword .and]
  | .equality => operation (of .comparison) [.symbol .bangEqual, .symbol .equalEqual]
  | .comparison =>
    operation (of .term)
      [.symbol .greater, .symbol .greaterEqual, .symbol .less, .symbol .lessEqual]
  | .term => operation (of .factor) [.symbol .minus, .symbol .plus]
  | .factor => operation (of .unary) [.symbol .star, .symbol .slash]
  | .unary => oneOf [.symbol .bang, .symbol .minus] * of .unary + of .call
  | .call =>
    of .primary * (symbol .leftParen * optional (of .arguments) * symbol .rightParen +
      symbol .dot * identifier)∗
  | .primary =>
    number + string + keyword .true + keyword .false + keyword .nil + keyword .this + identifier +
      symbol .leftParen * of .expression * symbol .rightParen +
      keyword .super * symbol .dot * identifier

@[gcongr]
theorem optional_mono {first second : Language Token} (within : first ≤ second) :
    optional first ≤ optional second :=
  add_le_add_left within 1

@[gcongr]
theorem listOf_mono {fits : Nat → Prop} {first second : Language Token} (within : first ≤ second) :
    listOf fits first ≤ listOf fits second := by
  rintro ts ⟨more, fit, derived⟩
  have further : symbol .comma * first ≤ symbol .comma * second := by gcongr
  exact ⟨more, fit, mul_le_mul' within (pow_le_pow_left' further more) derived⟩

theorem mem_listOf {fits : Nat → Prop} {item : Language Token} {ts : List Token} :
    ts ∈ listOf fits item ↔
      ∃ more, fits (more + 1) ∧ ts ∈ item * (symbol .comma * item) ^ more := Iff.rfl

theorem listOf_one {fits : Nat → Prop} (item : Language Token) (fit : fits 1) :
    item ≤ listOf fits item :=
  fun ts derived => mem_listOf.mpr ⟨0, fit, by rwa [pow_zero, mul_one]⟩

theorem listOf_more {fits : Nat → Prop} (item : Language Token) :
    item * (symbol .comma * listOf (fun length => fits (1 + length)) item) ≤ listOf fits item := by
  rintro _ ⟨first, head, _, ⟨comma, between, _, ⟨more, fit, rest⟩, rfl⟩, rfl⟩
  refine mem_listOf.mpr ⟨more + 1, by rwa [Nat.add_comm 1] at fit, ?_⟩
  rw [pow_succ', mul_assoc]
  exact Language.append_mem_mul head (Language.append_mem_mul between rest)

@[gcongr]
theorem operation_mono {first second : Language Token} (within : first ≤ second)
    (operators : List Kind) : operation first operators ≤ operation second operators := by
  unfold operation
  gcongr

theorem production_mono (fits : Nat → Prop) : Monotone (production fits) := by
  intro first second within rule
  have each : ∀ rule, first rule ≤ second rule := within
  cases rule <;> dsimp only [production] <;> (try gcongr) <;> exact each _

end Lox.Grammar

namespace Lox

open Grammar Computability

/-- What each rule derives, with lists of no more items than fit. -/
def grammar (fits : Nat → Prop) : Rule → Language Token :=
  OrderHom.lfp ⟨production fits, production_mono fits⟩

namespace Grammar

variable {fits : Nat → Prop}

theorem grammar_eq (rule : Rule) : grammar fits rule = production fits (grammar fits) rule :=
  (congrFun (OrderHom.map_lfp ⟨production fits, production_mono fits⟩) rule).symm

/-- A property of what all rules derive is checked on each production. -/
theorem grammar_le {languages : Rule → Language Token}
    (closed : production fits languages ≤ languages) : grammar fits ≤ languages :=
  OrderHom.lfp_le ⟨production fits, production_mono fits⟩ closed

/-- The language of programs: the lists in it have no more items than the parser lets pass. -/
abbrev derived : Rule → Language Token := grammar (fun length => length ≤ maxArguments)

theorem derived_eq (rule : Rule) :
    derived rule = production (fun length => length ≤ maxArguments) derived rule :=
  grammar_eq rule

/-! ### First tokens -/

def startsPrimary : Kind → Bool
  | .symbol .leftParen | .keyword .this | .keyword .super | .keyword .true | .keyword .false
  | .keyword .nil | .identifier | .string _ | .number _ => true
  | _ => false

def startsExpression (kind : Kind) : Bool :=
  startsPrimary kind || kind ∈ [.symbol .bang, .symbol .minus]

def startsStatement (kind : Kind) : Bool :=
  startsExpression kind || kind ∈ [.symbol .leftBrace, .keyword .for, .keyword .if,
    .keyword .print, .keyword .return, .keyword .while]

def startsDeclaration (kind : Kind) : Bool :=
  startsStatement kind || kind ∈ [.keyword .class, .keyword .fun, .keyword .var]

/-- What the first token of a rule can be. -/
def starts : Rule → Kind → Bool
  | .program, kind => startsDeclaration kind || kind = .eof
  | .declaration, kind => startsDeclaration kind
  | .classDecl, kind => kind = .keyword .class
  | .funDecl, kind => kind = .keyword .fun
  | .function, kind => kind = .identifier
  | .varDecl, kind => kind = .keyword .var
  | .statement, kind => startsStatement kind
  | .exprStmt, kind => startsExpression kind
  | .forStmt, kind => kind = .keyword .for
  | .ifStmt, kind => kind = .keyword .if
  | .printStmt, kind => kind = .keyword .print
  | .returnStmt, kind => kind = .keyword .return
  | .whileStmt, kind => kind = .keyword .while
  | .block, kind => kind = .symbol .leftBrace
  | .parameters, kind => kind = .identifier
  | .call, kind | .primary, kind => startsPrimary kind
  | .arguments, kind | .expression, kind | .assignment, kind | .logicOr, kind | .logicAnd, kind
  | .equality, kind | .comparison, kind | .term, kind | .factor, kind | .unary, kind =>
    startsExpression kind

/-- There is a first token, and it is of such a kind. -/
def leading (start : Kind → Bool) : Language Token :=
  {ts | ∃ token rest, ts = token :: rest ∧ start token.kind = true}

variable {start : Kind → Bool} {first second : Language Token}

theorem oneOf_leading {kinds : List Kind} (allowed : ∀ kind ∈ kinds, start kind = true) :
    oneOf kinds ≤ leading start := by
  rintro _ ⟨token, member, rfl⟩
  exact ⟨token, [], rfl, allowed _ member⟩

theorem mul_leading (led : first ≤ leading start) : first * second ≤ leading start := by
  intro ts derived
  obtain ⟨before, inside, after, _, rfl⟩ := Language.mem_mul.mp derived
  obtain ⟨token, rest, rfl, allowed⟩ := led inside
  exact ⟨token, rest ++ after, rfl, allowed⟩

theorem add_leading (led : first ≤ leading start) (other : second ≤ leading start) :
    first + second ≤ leading start := by
  rintro ts (derived | derived)
  · exact led derived
  · exact other derived

theorem kstar_mul_leading (led : first ≤ leading start) (ended : second ≤ leading start) :
    first∗ * second ≤ leading start := by
  intro ts derived
  obtain ⟨_, ⟨parts, rfl, inside⟩, after, final, rfl⟩ := Language.mem_mul.mp derived
  cases parts with
  | nil => exact ended final
  | cons part rest =>
    obtain ⟨token, others, rfl, allowed⟩ := led (inside part List.mem_cons_self)
    exact ⟨token, _, rfl, allowed⟩

theorem optional_mul_leading (led : first ≤ leading start) (ended : second ≤ leading start) :
    optional first * second ≤ leading start := by
  rw [optional, add_mul, one_mul]
  exact add_leading (mul_leading led) ended

theorem leading_mono {other : Kind → Bool} (wider : ∀ kind, start kind = true → other kind = true) :
    leading start ≤ leading other := by
  rintro _ ⟨token, rest, rfl, allowed⟩
  exact ⟨token, rest, rfl, wider _ allowed⟩

theorem listOf_leading {item : Language Token} (led : item ≤ leading start) :
    listOf fits item ≤ leading start := by
  rintro ts ⟨more, _, derived⟩
  exact mul_leading led derived

/-- The first token of one production, where those of the rules in it are as they should be. -/
theorem production_leading (rule : Rule) :
    production fits (fun rule => leading (starts rule)) rule ≤ leading (starts rule) := by
  cases rule with
  | program =>
    refine kstar_mul_leading (leading_mono ?_) (oneOf_leading ?_) <;> simp +contextual [starts]
  | declaration =>
    refine add_leading (add_leading (add_leading ?_ ?_) ?_) ?_ <;> refine leading_mono ?_ <;>
      simp +contextual [starts, startsDeclaration]
  | statement =>
    refine add_leading (add_leading (add_leading (add_leading (add_leading (add_leading
      ?_ ?_) ?_) ?_) ?_) ?_) ?_ <;>
      refine leading_mono ?_ <;> simp +contextual [starts, startsStatement]
  | assignment =>
    refine add_leading (mul_leading (mul_leading (optional_mul_leading (mul_leading
      (leading_mono ?_)) (oneOf_leading ?_)))) (leading_mono ?_) <;>
      simp +contextual [starts, startsExpression, startsPrimary]
  | logicOr | logicAnd | equality | comparison | term | factor =>
    exact mul_leading (leading_mono fun _ => id)
  | unary =>
    refine add_leading (mul_leading (oneOf_leading ?_)) (leading_mono ?_) <;>
      simp +contextual [starts, startsExpression]
  | call => exact mul_leading (leading_mono fun _ => id)
  | primary =>
    refine add_leading (add_leading (add_leading (add_leading (add_leading (add_leading (add_leading
      (add_leading ?_ ?_) (oneOf_leading ?_)) (oneOf_leading ?_)) (oneOf_leading ?_))
      (oneOf_leading ?_)) (oneOf_leading ?_)) (mul_leading (mul_leading (oneOf_leading ?_))))
      (mul_leading (mul_leading (oneOf_leading ?_)))
    · rintro _ ⟨token, value, same, rfl⟩
      exact ⟨token, [], rfl, by simp [starts, startsPrimary, same]⟩
    · rintro _ ⟨token, text, same, rfl⟩
      exact ⟨token, [], rfl, by simp [starts, startsPrimary, same]⟩
    all_goals simp [starts, startsPrimary]
  | arguments => exact listOf_leading (leading_mono fun _ => id)
  | parameters => exact listOf_leading (oneOf_leading (by simp [starts]))
  | expression => exact leading_mono fun _ => id
  | exprStmt => exact mul_leading (leading_mono fun _ => id)
  | classDecl | funDecl | function | varDecl | forStmt | ifStmt | printStmt | returnStmt
  | whileStmt | block =>
    repeat apply mul_leading
    exact oneOf_leading (by simp [starts])

theorem grammar_leading (rule : Rule) : grammar fits rule ≤ leading (starts rule) := by
  have closed : production fits (fun rule => leading (starts rule)) ≤
    fun rule => leading (starts rule) := production_leading
  exact grammar_le closed rule

end Grammar

end Lox
