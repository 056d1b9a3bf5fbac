import Lox.Fault
import Lox.Tree

/-!
Rules that read tokens. A rule gives what it read, or gives up with a fault; either way it leaves
the tokens still to be read, the next free number for a reference, and the faults recorded on the
way, so that parsing can go on after it.
-/

namespace Lox.Tree

structure Progress where
  /-- Without the end, which is only known by its line. -/
  rest : List Token
  endLine : Nat
  nextId : Nat
  faults : List Fault

def Parser (α : Type) : Type := Progress → Except Fault α × Progress

namespace Parser

variable {α β : Type}

instance : Monad Parser where
  pure value progress := (.ok value, progress)
  bind first next progress := match first progress with
    | (.ok value, progress) => next value progress
    | (.error fault, progress) => (.error fault, progress)

@[simp] theorem pure_apply (value : α) (progress : Progress) :
    (pure value : Parser α) progress = (.ok value, progress) := rfl

@[simp] theorem bind_apply (first : Parser α) (next : α → Parser β) (progress : Progress) :
    (first >>= next) progress = match first progress with
      | (.ok value, progress) => next value progress
      | (.error fault, progress) => (.error fault, progress) := rfl

@[simp] theorem map_apply (f : α → β) (parser : Parser α) (progress : Progress) :
    (f <$> parser) progress = match parser progress with
      | (.ok value, progress) => (.ok (f value), progress)
      | (.error fault, progress) => (.error fault, progress) := rfl

def atEnd : Parser Bool := fun progress => (.ok progress.rest.isEmpty, progress)

/-- The next token, left unread. -/
def peek? : Parser (Option Token) := fun progress => (.ok progress.rest.head?, progress)

/-- The next token, read without regard to its kind. -/
def skip : Parser Unit := fun progress => (.ok (), { progress with rest := progress.rest.tail })

/-- Whether the next token is of this kind. -/
def sees (kind : Kind) : Parser Bool := fun progress =>
  match progress.rest with
  | token :: _ => (.ok (token.kind = kind), progress)
  | [] => (.ok false, progress)

/-- The next token, if it is of one of these kinds. -/
def acceptAny? (kinds : List Kind) : Parser (Option Token) := fun progress =>
  match progress.rest with
  | token :: rest =>
    if token.kind ∈ kinds then (.ok (some token), { progress with rest })
    else (.ok none, progress)
  | [] => (.ok none, progress)

def accept (kind : Kind) : Parser Bool := Option.isSome <$> acceptAny? [kind]

/-- A complaint is about the next token, or about the end. -/
def faultAt (progress : Progress) (complaint : ParseComplaint) : Fault :=
  match progress.rest with
  | token :: _ => .parse token.line (some token.lexeme) complaint
  | [] => .parse progress.endLine none complaint

def record (fault : Fault) : Parser Unit := fun progress =>
  (.ok (), { progress with faults := progress.faults ++ [fault] })

def giveUp (complaint : ParseComplaint) : Parser α := fun progress =>
  (.error (faultAt progress complaint), progress)

def expect (symbol : Symbol) (place : String) : Parser Token := do
  match ← acceptAny? [.symbol symbol] with
  | some token => return token
  | none => giveUp (.missing symbol place)

def expectName (phrase : String) : Parser Token := do
  match ← acceptAny? [.identifier] with
  | some token => return token
  | none => giveUp (.missingPhrase phrase)

/-- A use of a name, under the next free number. -/
def reference (name : Token) : Parser Reference := fun progress =>
  (.ok ⟨progress.nextId, name⟩, { progress with nextId := progress.nextId + 1 })

/-- An item past the limit is complained of, and read all the same. -/
def checkLimit (items : String) (count : Nat) : Parser Unit := fun progress =>
  if maxArguments ≤ count then record (faultAt progress (.tooMany items)) progress
  else (.ok (), progress)

/-- One item or more with commas between them. Here and below `bound` is no less than the number of
tokens left, and `count` is the number of items so far. -/
def separated (items : String) (item : Parser α) : Nat → Nat → Parser (List α)
  | 0, count => do
    checkLimit items count
    return [← item]
  | bound + 1, count => do
    checkLimit items count
    let first ← item
    if ← accept (.symbol .comma) then return first :: (← separated items item bound (count + 1))
    else return [first]

/-- A list that may be empty and has a closing parenthesis after it, which is left unread. -/
def listed (bound : Nat) (items : String) (item : Parser α) : Parser (List α) := do
  if ← sees (.symbol .rightParen) then return []
  else separated items item bound 0

/-- Left-associative operators after a first operand. -/
def chain (operators : List Kind) (build : Expr → Token → Expr → Expr) (operand : Parser Expr) :
    Nat → Expr → Parser Expr
  | 0, left => return left
  | bound + 1, left => do
    match ← acceptAny? operators with
    | some operator => chain operators build operand bound (build left operator (← operand))
    | none => return left

def leftAssoc (bound : Nat) (operators : List Kind) (build : Expr → Token → Expr → Expr)
    (operand : Parser Expr) : Parser Expr := do
  chain operators build operand bound (← operand)

end Parser
end Lox.Tree
