import Lox.Token

/-!
Tokens as JSON, on one line or with one item a line. The members come in a fixed order, and a kind
that carries a value is an object with that value under the kind's name.
-/

namespace Lox.Token

def compactObject (members : List (String × String)) : String :=
  "\x7b" ++ String.intercalate "," (members.map fun (name, value) => Text.json name ++ ":" ++ value)
    ++ "\x7d"

def compactKind (kind : Kind) : String :=
  match kind with
  | .string text => compactObject [(kind.name, Text.json text)]
  | .number value => compactObject [(kind.name, Decimal.jsonText value)]
  | _ => Text.json kind.name

def json (token : Token) : String :=
  compactObject
    [("token_type", compactKind token.kind),
     ("lexeme", Text.json token.lexeme),
     ("line", toString token.line)]

/-- A block between brackets, its items two blanks further in than the brackets. -/
def prettyBlock (indent left right : String) (items : List String) : String :=
  if items.isEmpty then left ++ right
  else
    let inner := indent ++ "  "
    left ++ "\n" ++ String.intercalate ",\n" (items.map (inner ++ ·)) ++ "\n" ++ indent ++ right

def prettyObject (indent : String) (members : List (String × String)) : String :=
  prettyBlock indent "\x7b" "\x7d"
    (members.map fun (name, value) => Text.json name ++ ": " ++ value)

def prettyKind (indent : String) (kind : Kind) : String :=
  match kind with
  | .string text => prettyObject indent [(kind.name, Text.json text)]
  | .number value => prettyObject indent [(kind.name, Decimal.jsonText value)]
  | _ => Text.json kind.name

def prettyJson (indent : String) (token : Token) : String :=
  prettyObject indent
    [("token_type", prettyKind (indent ++ "  ") token.kind),
     ("lexeme", Text.json token.lexeme),
     ("line", toString token.line)]

def prettyJsonList (tokens : List Token) : String :=
  prettyBlock "" "[" "]" (tokens.map (prettyJson "  "))

end Lox.Token
