import Lox.Proofs.Encoded
import Lox.Proofs.Longest

/-! A scanner that keeps its place among the bytes of a text as indices. A look past the end, or a cut
within a character, stops it for good. Lines are counted where newlines are read, as blanks and on the
way through a string. -/

namespace Lox.Source

open Text.Utf8

@[ext]
structure Scanner where
  text : String
  /-- The first byte of the piece that is being read. -/
  start : Nat
  /-- One past the last byte that was read. -/
  curr : Nat
  line : Nat
  /-- What the piece turns out to be, if it is a token. -/
  pending : Option Kind

namespace Scanner

def fresh (source : String) : Scanner := ⟨source, 0, 0, 1, none⟩

def src (scanner : Scanner) : List UInt8 := bytes scanner.text

/-! ### Bytes -/

def isAtEnd (scanner : Scanner) : Bool := scanner.src.length ≤ scanner.curr

def advance (scanner : Scanner) : Option (UInt8 × Scanner) :=
  match scanner.src[scanner.curr]? with
  | some byte => some (byte, { scanner with curr := scanner.curr + 1 })
  | none => none

/-- The next byte, or zero at the end. -/
def peek (scanner : Scanner) : UInt8 := scanner.src[scanner.curr]?.getD 0

def peekNext (scanner : Scanner) : UInt8 := scanner.src[scanner.curr + 1]?.getD 0

def matchByte (expected : Char) (scanner : Scanner) : Option (Bool × Scanner) :=
  if !scanner.isAtEnd && Char.ofUInt8 scanner.peek == expected then do
    let (_, next) ← scanner.advance
    return (true, next)
  else return (false, scanner)

/-- Characters meet at the end, and where there is no byte that continues one. -/
def isBoundary (scanner : Scanner) (place : Nat) : Bool :=
  match scanner.src[place]? with
  | some byte => !tail.holds byte
  | none => place == scanner.src.length

/-- The text between two places, at both of which characters have to meet. -/
def slice? (scanner : Scanner) (first last : Nat) : Option String :=
  if first ≤ last ∧ scanner.isBoundary first ∧ scanner.isBoundary last then
    (decode ((scanner.src.take last).drop first)).toOption
  else none

theorem length_advance {scanner next : Scanner} {byte : UInt8}
    (given : scanner.advance = some (byte, next)) :
    next.src.length - next.curr < scanner.src.length - scanner.curr := by
  unfold advance at given
  split at given
  · rename_i found
    have inside := (List.getElem?_eq_some_iff.mp found).1
    cases given
    exact Nat.sub_succ_lt_self _ _ inside
  · cases given

/-- Past all bytes of a kind. -/
def pastWhile (p : UInt8 → Bool) (scanner : Scanner) : Option Scanner :=
  if p scanner.peek then
    match _given : scanner.advance with
    | some (_, next) => next.pastWhile p
    | none => none
  else some scanner
termination_by scanner.src.length - scanner.curr
decreasing_by exact length_advance _given

def isStringByte (byte : UInt8) : Bool := Char.ofUInt8 byte != '"'

/-- Up to the closing quote of a string. -/
def pastString (scanner : Scanner) : Option Scanner :=
  if !scanner.isAtEnd && isStringByte scanner.peek then
    match _given : scanner.advance with
    | some (byte, next) =>
      if Char.ofUInt8 byte = '\n' then { next with line := next.line + 1 }.pastString
      else next.pastString
    | none => none
  else some scanner
termination_by scanner.src.length - scanner.curr
decreasing_by all_goals exact @length_advance _ next _ _given

/-! ### Pieces -/

def isDigitByte (byte : UInt8) : Bool := isDigit (Char.ofUInt8 byte)

def isWordByte (byte : UInt8) : Bool := isWordChar (Char.ofUInt8 byte)

/-- Up to the end of the line. -/
def pastComment (scanner : Scanner) : Scanner :=
  match (scanner.src.drop scanner.curr).findIdx? (Char.ofUInt8 · == '\n') with
  | some place => { scanner with curr := scanner.curr + place }
  | none => { scanner with curr := scanner.src.length }

def parseString (scanner : Scanner) : Option (Option LexComplaint × Scanner) := do
  let scanner ← scanner.pastString
  if scanner.isAtEnd then return (some .unterminated, scanner)
  let (_, scanner) ← scanner.advance
  let text ← scanner.slice? (scanner.start + 1) (scanner.curr - 1)
  return (none, { scanner with pending := some (.string text) })

/-- A point belongs to the number only if a digit follows it. -/
def pastFraction (scanner : Scanner) : Option Scanner :=
  if Char.ofUInt8 scanner.peek = '.' ∧ isDigitByte scanner.peekNext then do
    let (_, next) ← scanner.advance
    next.pastWhile isDigitByte
  else some scanner

def parseNumber (scanner : Scanner) : Option (Option LexComplaint × Scanner) := do
  let scanner ← scanner.pastWhile isDigitByte
  let scanner ← scanner.pastFraction
  let text ← scanner.slice? scanner.start scanner.curr
  return (none, { scanner with pending := some (.number (Decimal.ofText text.toList)) })

/-- Words are looked up by their bytes. -/
def kindOf (word : List UInt8) : Kind :=
  match Keyword.all.find? fun keyword => bytes keyword.text == word with
  | some keyword => .keyword keyword
  | none => .identifier

def parseIdentifier (scanner : Scanner) : Option (Option LexComplaint × Scanner) := do
  let scanner ← scanner.pastWhile isWordByte
  let word := (scanner.src.take scanner.curr).drop scanner.start
  return (none, { scanner with pending := some (kindOf word) })

/-- The whole character is complained of and passed, not only its first byte. -/
def skipStray (scanner : Scanner) : Option (Option LexComplaint × Scanner) := do
  let text ← scanner.slice? scanner.start scanner.src.length
  let c := text.toList.head?.getD '\uFFFD'
  return (some (.unexpected c), { scanner with curr := scanner.start + c.utf8Size })

def found (symbol : Symbol) (scanner : Scanner) : Option (Option LexComplaint × Scanner) :=
  some (none, { scanner with pending := some (.symbol symbol) })

def slash (scanner : Scanner) : Option (Option LexComplaint × Scanner) := do
  let (comment, scanner) ← scanner.matchByte '/'
  if comment then return (none, scanner.pastComment)
  else scanner.found .slash

def operator (both alone : Symbol) (scanner : Scanner) : Option (Option LexComplaint × Scanner) := do
  let (equal, scanner) ← scanner.matchByte '='
  scanner.found (if equal then both else alone)

/-- One piece. Of the complaint it gives up with, the line is the one that the scanner is on. -/
def scanToken (scanner : Scanner) : Option (Option LexComplaint × Scanner) := do
  let (byte, scanner) ← scanner.advance
  let c := Char.ofUInt8 byte
  if c = '\n' then return (none, { scanner with line := scanner.line + 1 })
  else if c = ' ' ∨ c = '\r' ∨ c = '\t' then return (none, scanner)
  else if isLetter c then scanner.parseIdentifier
  else if isDigit c then scanner.parseNumber
  else if c = '"' then scanner.parseString
  else if c = '/' then scanner.slash
  else
    match withEqual? c, single? c with
    | some both, some alone => scanner.operator both alone
    | none, some alone => scanner.found alone
    | _, none => scanner.skipStray

/-! ### Progress -/

/-- Further on in the same text, with the same piece in hand. -/
structure Grows (scanner next : Scanner) : Prop where
  text : next.text = scanner.text
  start : next.start = scanner.start
  curr : scanner.curr ≤ next.curr
  inside : scanner.curr ≤ scanner.src.length → next.curr ≤ next.src.length

section Progress

variable {scanner middle next : Scanner}

theorem Grows.refl (scanner : Scanner) : scanner.Grows scanner := ⟨rfl, rfl, le_rfl, id⟩

theorem Grows.trans (former : scanner.Grows middle) (later : middle.Grows next) :
    scanner.Grows next :=
  ⟨later.text.trans former.text, later.start.trans former.start, former.curr.trans later.curr,
    later.inside ∘ former.inside⟩

theorem advance_grows {byte : UInt8} (given : scanner.advance = some (byte, next)) :
    scanner.Grows next ∧ next.curr = scanner.curr + 1 ∧ next.curr ≤ next.src.length := by
  unfold advance at given
  split at given
  · rename_i found
    have inside := (List.getElem?_eq_some_iff.mp found).1
    cases given
    exact ⟨⟨rfl, rfl, Nat.le_succ _, fun _ => inside⟩, rfl, inside⟩
  · cases given

theorem matchByte_grows {expected : Char} {matched : Bool}
    (given : scanner.matchByte expected = some (matched, next)) : scanner.Grows next := by
  unfold matchByte at given
  split at given
  · obtain ⟨⟨byte, after⟩, advanced, same⟩ := Option.bind_eq_some_iff.mp given
    cases same
    exact (advance_grows advanced).1
  · cases given
    exact .refl _

theorem pastWhile_grows {p : UInt8 → Bool} (given : scanner.pastWhile p = some next) :
    scanner.Grows next := by
  fun_induction pastWhile p scanner with
  | case1 scanner more byte after advanced ih => exact (advance_grows advanced).1.trans (ih given)
  | case2 => cases given
  | case3 => cases given; exact .refl _

theorem pastString_grows (given : scanner.pastString = some next) : scanner.Grows next := by
  fun_induction pastString scanner with
  | case1 scanner more byte after advanced newline ih =>
    have lined : after.Grows { after with line := after.line + 1 } := ⟨rfl, rfl, le_rfl, id⟩
    exact ((advance_grows advanced).1.trans lined).trans (ih given)
  | case2 scanner more byte after advanced other ih =>
    exact (advance_grows advanced).1.trans (ih given)
  | case3 => cases given
  | case4 => cases given; exact .refl _

theorem pastFraction_grows (given : scanner.pastFraction = some next) : scanner.Grows next := by
  unfold pastFraction at given
  split at given
  · obtain ⟨⟨byte, point⟩, advanced, again⟩ := Option.bind_eq_some_iff.mp given
    exact (advance_grows advanced).1.trans (pastWhile_grows again)
  · cases given
    exact .refl _

/-- What a piece has been read to, when its first byte has. -/
structure Passes (scanner next : Scanner) : Prop where
  text : next.text = scanner.text
  start : scanner.start < next.curr

theorem Grows.passes (grows : scanner.Grows next) (begun : scanner.start < scanner.curr) :
    scanner.Passes next :=
  ⟨grows.text, begun.trans_le grows.curr⟩

theorem Passes.pending (passes : scanner.Passes next) (kind : Option Kind) :
    scanner.Passes { next with pending := kind } := ⟨passes.text, passes.start⟩

section Routines

variable (begun : scanner.start < scanner.curr) {complaint : Option LexComplaint}
include begun

theorem pastComment_passes (inside : scanner.curr ≤ scanner.src.length) :
    scanner.Passes scanner.pastComment := by
  unfold pastComment
  split
  · exact ⟨rfl, begun.trans_le (Nat.le_add_right _ _)⟩
  · exact ⟨rfl, begun.trans_le inside⟩

theorem parseString_passes (given : scanner.parseString = some (complaint, next)) :
    scanner.Passes next := by
  obtain ⟨middle, looped, given⟩ := Option.bind_eq_some_iff.mp given
  have grows := pastString_grows looped
  split at given
  · cases given
    exact grows.passes begun
  obtain ⟨⟨byte, after⟩, advanced, given⟩ := Option.bind_eq_some_iff.mp given
  obtain ⟨text, sliced, given⟩ := Option.bind_eq_some_iff.mp given
  cases given
  exact ((grows.trans (advance_grows advanced).1).passes begun).pending _

theorem parseNumber_passes (given : scanner.parseNumber = some (complaint, next)) :
    scanner.Passes next := by
  obtain ⟨middle, looped, given⟩ := Option.bind_eq_some_iff.mp given
  obtain ⟨after, pointed, given⟩ := Option.bind_eq_some_iff.mp given
  obtain ⟨text, sliced, given⟩ := Option.bind_eq_some_iff.mp given
  cases given
  exact (((pastWhile_grows looped).trans (pastFraction_grows pointed)).passes begun).pending _

theorem parseIdentifier_passes (given : scanner.parseIdentifier = some (complaint, next)) :
    scanner.Passes next := by
  obtain ⟨middle, looped, given⟩ := Option.bind_eq_some_iff.mp given
  cases given
  exact ((pastWhile_grows looped).passes begun).pending _

theorem found_passes {symbol : Symbol} (given : scanner.found symbol = some (complaint, next)) :
    scanner.Passes next := by
  cases given
  exact ⟨rfl, begun⟩

omit begun in
theorem skipStray_passes (given : scanner.skipStray = some (complaint, next)) :
    scanner.Passes next := by
  obtain ⟨text, sliced, given⟩ := Option.bind_eq_some_iff.mp given
  cases given
  exact ⟨rfl, Nat.lt_add_of_pos_right (Char.utf8Size_pos _)⟩

end Routines

theorem slash_passes (begun : scanner.start < scanner.curr) {complaint : Option LexComplaint}
    (inside : scanner.curr ≤ scanner.src.length)
    (given : scanner.slash = some (complaint, next)) : scanner.Passes next := by
  obtain ⟨⟨comment, second⟩, matched, given⟩ := Option.bind_eq_some_iff.mp given
  have more := matchByte_grows matched
  have begun' : second.start < second.curr := more.start ▸ begun.trans_le more.curr
  suffices passes : second.Passes next from
    ⟨passes.text.trans more.text, more.start ▸ passes.start⟩
  dsimp only at given
  split at given
  · cases given
    exact pastComment_passes begun' (more.inside inside)
  · exact found_passes begun' given

theorem operator_passes (begun : scanner.start < scanner.curr) {complaint : Option LexComplaint}
    {both alone : Symbol} (given : scanner.operator both alone = some (complaint, next)) :
    scanner.Passes next := by
  obtain ⟨⟨equal, second⟩, matched, given⟩ := Option.bind_eq_some_iff.mp given
  have more := matchByte_grows matched
  have passes := found_passes (more.start ▸ begun.trans_le more.curr) given
  exact ⟨passes.text.trans more.text, more.start ▸ passes.start⟩

/-- No piece is empty. -/
theorem scanToken_passes {complaint : Option LexComplaint} (here : scanner.start = scanner.curr)
    (given : scanner.scanToken = some (complaint, next)) :
    next.text = scanner.text ∧ scanner.curr < next.curr := by
  obtain ⟨⟨byte, first⟩, advanced, given⟩ := Option.bind_eq_some_iff.mp given
  obtain ⟨grows, one, inside⟩ := advance_grows advanced
  have begun : first.start < first.curr := by rw [grows.start, here, one]; exact Nat.lt_succ_self _
  suffices passes : first.Passes next by
    refine ⟨passes.text.trans grows.text, ?_⟩
    rw [← here, ← grows.start]
    exact passes.start
  dsimp only at given
  split at given
  · cases given
    exact ⟨rfl, begun⟩
  split at given
  · cases given
    exact ⟨rfl, begun⟩
  split at given
  · exact parseIdentifier_passes begun given
  split at given
  · exact parseNumber_passes begun given
  split at given
  · exact parseString_passes begun given
  split at given
  · exact slash_passes begun inside given
  split at given
  · exact operator_passes begun given
  · exact found_passes begun given
  · exact skipStray_passes given

end Progress

/-- One item, unless the end has been given. Blanks and comments are passed on the way. -/
def next (scanner : Scanner) : Option (Option Item × Scanner) :=
  if scanner.curr ≤ scanner.src.length then
    if scanner.curr = scanner.src.length then
      some (some (.token (.eof scanner.line)), { scanner with curr := scanner.curr + 1 })
    else
      match _given : { scanner with start := scanner.curr, pending := none }.scanToken with
      | none => none
      | some (some complaint, next) => some (some (.complaint next.line complaint), next)
      | some (none, next) =>
        match next.pending with
        | some kind => do
          let lexeme ← next.slice? next.start next.curr
          return (some (.token ⟨kind, lexeme, next.line⟩), { next with pending := none })
        | none => next.next
  else some (none, scanner)
termination_by scanner.src.length + 1 - scanner.curr
decreasing_by
  obtain ⟨text, further⟩ := scanToken_passes rfl _given
  have same : next.src = scanner.src := congrArg bytes text
  dsimp only at further
  rw [same]
  omega

/-- What the calls give, one after another and for ever, unless one of them stops for good. -/
def calls (scanner : Scanner) : Nat → Option (Option Item)
  | 0 => scanner.next.map Prod.fst
  | count + 1 => scanner.next.bind fun (_, after) => after.calls count

end Scanner

end Lox.Source
