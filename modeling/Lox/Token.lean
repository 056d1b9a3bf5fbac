import Lox.Decimal.Layout
import Lox.Text.Quoted

/-!
Tokens. A kind carries what a token means, a lexeme how it was written; tokens made by hand may
disagree with themselves, so the two are never derived from one another here.
-/

namespace Lox

inductive Symbol
  | leftParen | rightParen | leftBrace | rightBrace | comma | dot | minus | plus | semicolon
  | slash | star | bang | bangEqual | equal | equalEqual | greater | greaterEqual | less | lessEqual
deriving DecidableEq, Repr

def Symbol.text : Symbol → String
  | .leftParen => "(" | .rightParen => ")" | .leftBrace => "\x7b" | .rightBrace => "\x7d"
  | .comma => "," | .dot => "." | .minus => "-" | .plus => "+" | .semicolon => ";"
  | .slash => "/" | .star => "*" | .bang => "!" | .bangEqual => "!=" | .equal => "="
  | .equalEqual => "==" | .greater => ">" | .greaterEqual => ">=" | .less => "<"
  | .lessEqual => "<="

def Symbol.name : Symbol → String
  | .leftParen => "LEFT_PAREN" | .rightParen => "RIGHT_PAREN"
  | .leftBrace => "LEFT_BRACE" | .rightBrace => "RIGHT_BRACE"
  | .comma => "COMMA" | .dot => "DOT" | .minus => "MINUS" | .plus => "PLUS"
  | .semicolon => "SEMICOLON" | .slash => "SLASH" | .star => "STAR"
  | .bang => "BANG" | .bangEqual => "BANG_EQUAL" | .equal => "EQUAL"
  | .equalEqual => "EQUAL_EQUAL" | .greater => "GREATER" | .greaterEqual => "GREATER_EQUAL"
  | .less => "LESS" | .lessEqual => "LESS_EQUAL"

def Symbol.all : List Symbol :=
  [.leftParen, .rightParen, .leftBrace, .rightBrace, .comma, .dot, .minus, .plus, .semicolon,
   .slash, .star, .bang, .bangEqual, .equal, .equalEqual, .greater, .greaterEqual, .less,
   .lessEqual]

inductive Keyword
  | and | «class» | «else» | false | «fun» | «for» | «if» | nil | or | print | «return» | super
  | this | true | var | «while»
deriving DecidableEq, Repr

def Keyword.text : Keyword → String
  | .and => "and" | .class => "class" | .else => "else" | .false => "false" | .fun => "fun"
  | .for => "for" | .if => "if" | .nil => "nil" | .or => "or" | .print => "print"
  | .return => "return" | .super => "super" | .this => "this" | .true => "true" | .var => "var"
  | .while => "while"

def Keyword.name : Keyword → String
  | .and => "AND" | .class => "CLASS" | .else => "ELSE" | .false => "FALSE" | .fun => "FUN"
  | .for => "FOR" | .if => "IF" | .nil => "NIL" | .or => "OR" | .print => "PRINT"
  | .return => "RETURN" | .super => "SUPER" | .this => "THIS" | .true => "TRUE" | .var => "VAR"
  | .while => "WHILE"

def Keyword.all : List Keyword :=
  [.and, .class, .else, .false, .fun, .for, .if, .nil, .or, .print, .return, .super, .this, .true,
   .var, .while]

/-- A word is a keyword only as a whole. -/
def Keyword.ofText? (text : String) : Option Keyword :=
  Keyword.all.find? (·.text == text)

inductive Kind
  | symbol (symbol : Symbol)
  | keyword (keyword : Keyword)
  | identifier
  | string (text : String)
  | number (value : Float)
  | eof
deriving DecidableEq

namespace Kind

def name : Kind → String
  | .symbol sign => sign.name
  | .keyword word => word.name
  | .identifier => "IDENTIFIER"
  | .string _ => "STRING"
  | .number _ => "NUMBER"
  | .eof => "EOF"

/-- Two strings are of one kind whatever they hold, and so are two numbers. -/
def same : Kind → Kind → Bool
  | .symbol a, .symbol b => a = b
  | .keyword a, .keyword b => a = b
  | .identifier, .identifier => true
  | .string _, .string _ => true
  | .number _, .number _ => true
  | .eof, .eof => true
  | _, _ => false

/-- What the token stands for, where it stands for a value. -/
def literal? : Kind → Option String
  | .string text => some text
  | .number value => some (Decimal.tokenText value)
  | _ => none

end Kind

structure Token where
  kind : Kind
  lexeme : String
  line : Nat
deriving DecidableEq

namespace Token

/-- The end of the tokens, on a given line. -/
def eof (line : Nat) : Token := ⟨.eof, "", line⟩

def same (a b : Token) : Bool :=
  a.kind.same b.kind && a.lexeme == b.lexeme && a.line == b.line

def text (token : Token) : String :=
  token.kind.name ++ " " ++ token.lexeme ++ " " ++ token.kind.literal?.getD "null"

end Token
end Lox
