import Lox.Token

/-!
Source text cut into pieces. Each piece is the longest that can start where it starts, and no
character is lost: a piece and what follows it are the text they were cut from (`text_cut`).
-/

namespace Lox.Source

inductive Piece
  /-- A blank, or a comment without the newline after it. -/
  | blank (text : List Char)
  | token (kind : Kind) (text : List Char)
  /-- A character that starts nothing. -/
  | stray (c : Char)
  /-- A string whose closing quote is missing, up to the end of the text. -/
  | unclosed (text : List Char)

def Piece.text : Piece → List Char
  | blank text | token _ text | unclosed text => text
  | stray c => [c]

def isBlank (c : Char) : Bool := c == ' ' || c == '\r' || c == '\t' || c == '\n'

def isDigit (c : Char) : Bool := '0' ≤ c && c ≤ '9'

def isLetter (c : Char) : Bool := 'a' ≤ c && c ≤ 'z' || 'A' ≤ c && c ≤ 'Z' || c == '_'

def isWordChar (c : Char) : Bool := isLetter c || isDigit c

/-- The symbol a character is by itself. -/
def single? : Char → Option Symbol
  | '(' => some .leftParen
  | ')' => some .rightParen
  | '\x7b' => some .leftBrace
  | '\x7d' => some .rightBrace
  | ',' => some .comma
  | '.' => some .dot
  | '-' => some .minus
  | '+' => some .plus
  | ';' => some .semicolon
  | '*' => some .star
  | '/' => some .slash
  | '!' => some .bang
  | '=' => some .equal
  | '<' => some .less
  | '>' => some .greater
  | _ => none

/-- The symbol a character is with an equals sign after it. -/
def withEqual? : Char → Option Symbol
  | '!' => some .bangEqual
  | '=' => some .equalEqual
  | '<' => some .lessEqual
  | '>' => some .greaterEqual
  | _ => none

def wordKind (word : List Char) : Kind :=
  match Keyword.ofText? (String.ofList word) with
  | some keyword => .keyword keyword
  | none => .identifier

def cutWord (text : List Char) : Piece × List Char :=
  let word := text.takeWhile isWordChar
  (.token (wordKind word) word, text.dropWhile isWordChar)

/-- A point belongs to the number only if a digit follows it. -/
def cutNumber (text : List Char) : Piece × List Char :=
  let whole := text.takeWhile isDigit
  match text.dropWhile isDigit with
  | '.' :: rest =>
    let fraction := rest.takeWhile isDigit
    if fraction.isEmpty then
      (.token (.number (Decimal.read whole [])) whole, '.' :: rest)
    else
      (.token (.number (Decimal.read whole fraction)) (whole ++ '.' :: fraction),
        rest.dropWhile isDigit)
  | rest => (.token (.number (Decimal.read whole [])) whole, rest)

/-- What follows the opening quote of a string. -/
def cutString (text : List Char) : Piece × List Char :=
  let inside := text.takeWhile (· != '"')
  match text.dropWhile (· != '"') with
  | [] => (.unclosed ('"' :: inside), [])
  | quote :: rest =>
    (.token (.string (String.ofList inside)) ('"' :: inside ++ [quote]), rest)

def cutComment (text : List Char) : Piece × List Char :=
  (.blank (text.takeWhile (· != '\n')), text.dropWhile (· != '\n'))

def cutSymbol (c : Char) (rest : List Char) : Piece × List Char :=
  match withEqual? c, rest with
  | some symbol, '=' :: rest => (.token (.symbol symbol) [c, '='], rest)
  | _, _ =>
    match single? c with
    | some symbol => (.token (.symbol symbol) [c], rest)
    | none => (.stray c, rest)

/-- The first piece of a text that starts with a given character, and what is left. -/
def cut (c : Char) (rest : List Char) : Piece × List Char :=
  if isBlank c then (.blank [c], rest)
  else if isLetter c then cutWord (c :: rest)
  else if isDigit c then cutNumber (c :: rest)
  else if c = '"' then cutString rest
  else if c = '/' ∧ rest.head? = some '/' then cutComment (c :: rest)
  else cutSymbol c rest

theorem text_cutWord (text : List Char) : (cutWord text).1.text ++ (cutWord text).2 = text :=
  List.takeWhile_append_dropWhile

theorem text_cutNumber (text : List Char) :
    (cutNumber text).1.text ++ (cutNumber text).2 = text := by
  have whole := List.takeWhile_append_dropWhile (p := isDigit) (l := text)
  unfold cutNumber
  split
  · rename_i rest same
    rw [same] at whole
    have fraction := List.takeWhile_append_dropWhile (p := isDigit) (l := rest)
    dsimp only
    split
    · exact whole
    · simpa [Piece.text, fraction] using whole
  · rename_i same
    exact whole

theorem text_cutString (text : List Char) :
    (cutString text).1.text ++ (cutString text).2 = '"' :: text := by
  have inside := List.takeWhile_append_dropWhile (p := (· != '"')) (l := text)
  unfold cutString
  split
  · rename_i same
    rw [same] at inside
    simpa [Piece.text] using inside
  · rename_i same
    rw [same] at inside
    simpa [Piece.text] using inside

theorem text_cutSymbol (c : Char) (rest : List Char) :
    (cutSymbol c rest).1.text ++ (cutSymbol c rest).2 = c :: rest := by
  unfold cutSymbol
  split
  · rfl
  · split <;> rfl

theorem text_cut (c : Char) (rest : List Char) :
    (cut c rest).1.text ++ (cut c rest).2 = c :: rest := by
  unfold cut
  split
  · rfl
  split
  · exact text_cutWord _
  split
  · exact text_cutNumber _
  split
  · rename_i quote
    subst quote
    exact text_cutString _
  split
  · exact List.takeWhile_append_dropWhile
  · exact text_cutSymbol _ _

theorem takeWhile_ne_nil {p : Char → Bool} {c : Char} (first : p c) (rest : List Char) :
    (c :: rest).takeWhile p ≠ [] := by
  simp [first]

theorem cutNumber_text_ne_nil {c : Char} (first : isDigit c) (rest : List Char) :
    (cutNumber (c :: rest)).1.text ≠ [] := by
  have some_digit := takeWhile_ne_nil (p := isDigit) first rest
  unfold cutNumber
  split
  · dsimp only
    split
    · exact some_digit
    · simp [Piece.text]
  · exact some_digit

theorem cut_text_ne_nil (c : Char) (rest : List Char) : (cut c rest).1.text ≠ [] := by
  unfold cut
  split
  · simp [Piece.text]
  split
  · rename_i letter
    exact takeWhile_ne_nil (p := isWordChar) (by simp [isWordChar, letter]) rest
  split
  · rename_i digit
    exact cutNumber_text_ne_nil digit rest
  split
  · unfold cutString
    split <;> simp [Piece.text]
  split
  · rename_i slash
    exact takeWhile_ne_nil (p := (· != '\n')) (by simp [slash.1]) rest
  · unfold cutSymbol
    split
    · simp [Piece.text]
    · split <;> simp [Piece.text]

theorem length_cut (c : Char) (rest : List Char) : (cut c rest).2.length ≤ rest.length := by
  have whole := congrArg List.length (text_cut c rest)
  have some_text := List.length_pos_iff.mpr (cut_text_ne_nil c rest)
  simp only [List.length_append, List.length_cons] at whole
  omega

end Lox.Source
