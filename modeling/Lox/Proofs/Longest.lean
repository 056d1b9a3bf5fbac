import Mathlib
import Lox.Proofs.Spans

/-! What each item says of the text that starts where it stands. A token is the longest of its form
that the text starts with, and a complaint is given where no token starts. -/

namespace Lox

/-- The float nearest to a decimal as it is written. -/
def Decimal.ofText (text : List Char) : Float :=
  Decimal.read (text.takeWhile (· != '.')) (text.dropWhile (· != '.')).tail

namespace Source

/-! ### The forms of tokens -/

/-- The longest text of some form that a text starts with. -/
structure Longest (form : List Char → Prop) (text found : List Char) : Prop where
  starts : found <+: text
  formed : form found
  longest : ∀ other, other <+: text → form other → other.length ≤ found.length

/-- Digits, and perhaps a point with more digits after it. -/
inductive Numeral : List Char → Prop
  | whole {digits : List Char} : digits ≠ [] → (∀ c ∈ digits, isDigit c) → Numeral digits
  | decimal {digits fraction : List Char} : (∀ c ∈ digits, isDigit c) →
    fraction ≠ [] → (∀ c ∈ fraction, isDigit c) → Numeral (digits ++ '.' :: fraction)

def Operator (text : List Char) : Prop := ∃ symbol : Symbol, symbol.text.toList = text

/-- What a token says of the text it stands at the start of. -/
def Munches (c : Char) (rest : List Char) (token : Token) : Prop :=
  if isLetter c then
    Longest (fun word => ∀ d ∈ word, isWordChar d) (c :: rest) token.lexeme.toList ∧
      (∀ word, token.kind = .keyword word ↔ token.lexeme = word.text) ∧
      ((∀ word, token.lexeme ≠ Keyword.text word) → token.kind = .identifier)
  else if isDigit c then
    Longest Numeral (c :: rest) token.lexeme.toList ∧
      token.kind = .number (Decimal.ofText token.lexeme.toList)
  else if c = '"' then
    token.lexeme.toList <+: c :: rest ∧ ∃ inside, '"' ∉ inside ∧
      token.lexeme.toList = '"' :: inside ++ ['"'] ∧ token.kind = .string (String.ofList inside)
  else
    Longest Operator (c :: rest) token.lexeme.toList ∧
      (∃ symbol, token.kind = .symbol symbol ∧ token.lexeme = symbol.text) ∧
      ¬ ['/', '/'] <+: c :: rest

/-- A character that is no blank and that no token starts with. -/
structure Foreign (c : Char) : Prop where
  blank : ¬ isBlank c
  letter : ¬ isLetter c
  digit : ¬ isDigit c
  quote : c ≠ '"'
  symbol : ∀ text, Operator text → text.head? ≠ some c

/-- What an item says of the text it stands at the start of. -/
structure Item.Begins (c : Char) (rest : List Char) (item : Item) : Prop where
  /-- Blanks and comments are over. -/
  apart : ¬ isBlank c ∧ ¬ ['/', '/'] <+: c :: rest
  token : ∀ token, item = .token token → Munches c rest token
  stray : ∀ d, (∃ line, item = .complaint line (.unexpected d)) ↔ d = c ∧ Foreign c
  unclosed : (∃ line, item = .complaint line .unterminated) ↔ c = '"' ∧ '"' ∉ rest

def Item.Reads (item : Item) : List Char → Prop
  | [] => ∃ line, item = .token (.eof line)
  | c :: rest => item.Begins c rest

/-! ### Words and numbers -/

theorem longest_takeWhile (p : Char → Bool) (text : List Char) :
    Longest (fun word => ∀ c ∈ word, p c) text (text.takeWhile p) where
  starts := List.takeWhile_prefix p
  formed := List.all_eq_true.mp List.all_takeWhile
  longest other starts all := by
    obtain ⟨tail, rfl⟩ := starts
    rw [List.takeWhile_append_of_pos all, List.length_append]
    exact Nat.le_add_right _ _

theorem ofText?_eq_some {text : String} {word : Keyword} :
    Keyword.ofText? text = some word ↔ text = word.text := by
  constructor
  · intro found
    have same := List.find?_some found
    exact (beq_iff_eq.mp same).symm
  · rintro rfl
    cases word <;> rfl

theorem wordKind_keyword (text : List Char) (word : Keyword) :
    wordKind text = .keyword word ↔ String.ofList text = word.text := by
  rw [← ofText?_eq_some, wordKind]
  cases Keyword.ofText? (String.ofList text) <;> simp

theorem wordKind_identifier {text : List Char}
    (none : ∀ word, String.ofList text ≠ Keyword.text word) : wordKind text = .identifier := by
  unfold wordKind
  cases found : Keyword.ofText? (String.ofList text) with
  | none => rfl
  | some word => exact absurd (ofText?_eq_some.mp found) (none word)

theorem munches_word {c : Char} (letter : isLetter c) (rest : List Char) (line : Nat) :
    Munches c rest ⟨wordKind ((c :: rest).takeWhile isWordChar),
      String.ofList ((c :: rest).takeWhile isWordChar), line⟩ := by
  unfold Munches
  rw [if_pos letter]
  dsimp only
  rw [String.toList_ofList]
  exact ⟨longest_takeWhile isWordChar _, wordKind_keyword _, wordKind_identifier⟩

/-- Characters of one kind end where one of another kind comes, or nothing. -/
theorem takeWhile_stop {p : Char → Bool} {text more : List Char} (all : ∀ c ∈ text, p c)
    (stops : ∀ c rest, more = c :: rest → p c = false) :
    (text ++ more).takeWhile p = text ∧ (text ++ more).dropWhile p = more := by
  rw [List.takeWhile_append_of_pos all, List.dropWhile_append_of_pos all]
  cases more with
  | nil => exact ⟨List.append_nil text, rfl⟩
  | cons c rest =>
    have other : ¬ p c = true := by simp [stops c rest rfl]
    rw [List.takeWhile_cons_of_neg other, List.dropWhile_cons_of_neg other, List.append_nil]
    exact ⟨rfl, rfl⟩

section Numbers

variable {text digits fraction rest : List Char}

/-- A decimal is cut at its point. -/
theorem takeWhile_point {p : Char → Bool} (rest : List Char) (point : p '.' = false)
    (all : ∀ c ∈ digits, p c) :
    (digits ++ '.' :: rest).takeWhile p = digits ∧
      (digits ++ '.' :: rest).dropWhile p = '.' :: rest := by
  refine takeWhile_stop all ?_
  rintro c others same
  cases same
  exact point

theorem no_point (all : ∀ c ∈ digits, isDigit c) : ∀ c ∈ digits, (c != '.') = true := by
  intro c member
  have digit := all c member
  rw [bne_iff_ne]
  rintro rfl
  exact absurd digit (by decide)

theorem ofText_whole (all : ∀ c ∈ digits, isDigit c) :
    Decimal.ofText digits = Decimal.read digits [] := by
  have free := no_point all
  rw [Decimal.ofText, List.takeWhile_eq_self_iff.mpr free, List.dropWhile_eq_nil_iff.mpr free]
  rfl

theorem ofText_decimal (all : ∀ c ∈ digits, isDigit c) :
    Decimal.ofText (digits ++ '.' :: fraction) = Decimal.read digits fraction := by
  obtain ⟨before, after⟩ := takeWhile_point fraction rfl (no_point all)
  rw [Decimal.ofText, before, after]
  rfl

theorem takeWhile_all (text : List Char) (p : Char → Bool) : ∀ c ∈ text.takeWhile p, p c :=
  List.all_eq_true.mp List.all_takeWhile

/-- Where no digit follows a point, the number ends before it. -/
theorem longest_whole (some_digit : text.takeWhile isDigit ≠ [])
    (ends : ∀ rest, text.dropWhile isDigit = '.' :: rest → rest.takeWhile isDigit = []) :
    Longest Numeral text (text.takeWhile isDigit) where
  starts := List.takeWhile_prefix _
  formed := .whole some_digit (takeWhile_all text isDigit)
  longest other starts numeral := by
    cases numeral with
    | whole _ all => exact (longest_takeWhile isDigit text).longest other starts all
    | @decimal digits fraction all some_fraction each =>
      obtain ⟨tail, rfl⟩ := starts
      rw [List.append_assoc, List.cons_append] at ends
      have none := ends _ (takeWhile_point (fraction ++ tail) (by decide) all).2
      rw [List.takeWhile_append_of_pos each] at none
      exact absurd (List.append_eq_nil_iff.mp none).1 some_fraction

theorem longest_decimal (point : text.dropWhile isDigit = '.' :: rest)
    (some_fraction : rest.takeWhile isDigit ≠ []) :
    Longest Numeral text (text.takeWhile isDigit ++ '.' :: rest.takeWhile isDigit) where
  starts := by
    have whole := List.takeWhile_append_dropWhile (p := isDigit) (l := text)
    rw [point] at whole
    conv_rhs => rw [← whole]
    exact (List.prefix_append_right_inj _).mpr
      (List.cons_prefix_cons.mpr ⟨rfl, List.takeWhile_prefix _⟩)
  formed := .decimal (takeWhile_all text isDigit) some_fraction (takeWhile_all rest isDigit)
  longest other starts numeral := by
    rw [List.length_append]
    cases numeral with
    | whole _ all =>
      exact ((longest_takeWhile isDigit text).longest other starts all).trans (Nat.le_add_right _ _)
    | @decimal digits fraction all _ each =>
      obtain ⟨tail, rfl⟩ := starts
      rw [List.append_assoc, List.cons_append] at point ⊢
      obtain ⟨before, after⟩ := takeWhile_point (fraction ++ tail) (by decide) all
      obtain rfl := (List.cons.inj (after.symm.trans point)).2
      have shorter := (longest_takeWhile isDigit (fraction ++ tail)).longest fraction
        (List.prefix_append _ _) each
      rw [before]
      simpa using shorter

theorem munches_number {c : Char} (letter : ¬ isLetter c) (digit : isDigit c) (rest : List Char)
    {kind : Kind} {text : List Char} (line : Nat)
    (given : (cutNumber (c :: rest)).1 = .token kind text) :
    Munches c rest ⟨kind, String.ofList text, line⟩ := by
  have some_digit := takeWhile_ne_nil (p := isDigit) digit rest
  unfold Munches
  rw [if_neg letter, if_pos digit]
  dsimp only
  rw [String.toList_ofList]
  by_cases point : ∃ after, (c :: rest).dropWhile isDigit = '.' :: after
  · obtain ⟨after, point⟩ := point
    rw [cutNumber_point point] at given
    by_cases none : (after.takeWhile isDigit).isEmpty
    · rw [if_pos none] at given
      cases given
      refine ⟨longest_whole some_digit fun other same => ?_, ?_⟩
      · obtain rfl := (List.cons.inj (point.symm.trans same)).2
        exact List.isEmpty_iff.mp none
      · rw [ofText_whole (takeWhile_all _ _)]
    · rw [if_neg none] at given
      cases given
      refine ⟨longest_decimal point fun empty => none (List.isEmpty_iff.mpr empty), ?_⟩
      rw [ofText_decimal (takeWhile_all _ _)]
  · rw [cutNumber_whole fun after same => point ⟨after, same⟩] at given
    cases given
    refine ⟨longest_whole some_digit fun other same => absurd ⟨other, same⟩ point, ?_⟩
    rw [ofText_whole (takeWhile_all _ _)]

end Numbers

/-! ### Strings and symbols -/

theorem munches_string {rest : List Char} {kind : Kind} {text : List Char} (line : Nat)
    (given : (cutString rest).1 = .token kind text) :
    Munches '"' rest ⟨kind, String.ofList text, line⟩ := by
  have whole := text_cutString rest
  unfold Munches
  rw [if_neg (by decide), if_neg (by decide), if_pos rfl]
  dsimp only
  rw [String.toList_ofList, ← whole, given]
  refine ⟨List.prefix_append _ _, rest.takeWhile (· != '"'), ?_, ?_⟩
  · intro inside
    have other := takeWhile_all rest (· != '"') _ inside
    simp at other
  · unfold cutString at given
    split at given
    · cases given
    · rename_i quote after same
      cases given
      have closing : quote = '"' := by simpa using first_dropWhile same
      exact ⟨by rw [closing], rfl⟩

theorem unclosed_iff (rest : List Char) :
    (∃ text, (cutString rest).1 = .unclosed text) ↔ '"' ∉ rest := by
  have none : '"' ∉ rest ↔ rest.dropWhile (· != '"') = [] := by
    rw [List.dropWhile_eq_nil_iff]
    constructor
    · intro absent c member
      rw [bne_iff_ne]
      rintro rfl
      exact absent member
    · intro all member
      simpa using all _ member
  rw [none]
  unfold cutString
  cases rest.dropWhile (· != '"') <;> simp

theorem single?_iff {c : Char} {symbol : Symbol} :
    single? c = some symbol ↔ symbol.text.toList = [c] := by
  constructor
  · intro found
    unfold single? at found
    split at found <;> cases found <;> rfl
  · intro spelled
    cases symbol <;> cases spelled <;> rfl

theorem withEqual?_iff {c : Char} {symbol : Symbol} :
    withEqual? c = some symbol ↔ symbol.text.toList = [c, '='] := by
  constructor
  · intro found
    unfold withEqual? at found
    split at found <;> cases found <;> rfl
  · intro spelled
    cases symbol <;> cases spelled <;> rfl

/-- The two ways of writing a symbol. -/
inductive Spelled : List Char → Prop
  | one {c : Char} {symbol : Symbol} : single? c = some symbol → Spelled [c]
  | two {c : Char} {symbol : Symbol} : withEqual? c = some symbol → Spelled [c, '=']

theorem spelled_of_operator {text : List Char} (operator : Operator text) : Spelled text := by
  obtain ⟨symbol, rfl⟩ := operator
  cases symbol with
  | bangEqual | equalEqual | lessEqual | greaterEqual => exact .two rfl
  | _ => exact .one rfl

/-- What is a symbol with an equals sign after it is one without. -/
theorem single?_of_withEqual {c : Char} {symbol : Symbol} (found : withEqual? c = some symbol) :
    ∃ other, single? c = some other := by
  unfold withEqual? at found
  split at found <;> cases found <;> exact ⟨_, rfl⟩

theorem foreign_iff {c : Char} (blank : ¬ isBlank c) (letter : ¬ isLetter c) (digit : ¬ isDigit c)
    (quote : c ≠ '"') : Foreign c ↔ single? c = none := by
  constructor
  · intro foreign
    cases found : single? c with
    | none => rfl
    | some symbol => exact absurd rfl (foreign.symbol [c] ⟨symbol, single?_iff.mp found⟩)
  · intro none
    refine ⟨blank, letter, digit, quote, fun text operator first => ?_⟩
    cases spelled_of_operator operator with
    | one found =>
      cases first
      rw [none] at found
      cases found
    | two found =>
      cases first
      obtain ⟨other, alone⟩ := single?_of_withEqual found
      rw [none] at alone
      cases alone

theorem Longest.head?_eq {c : Char} {rest text : List Char}
    (longest : Longest Operator (c :: rest) text) : text.head? = some c := by
  obtain ⟨tail, same⟩ := longest.starts
  cases spelled_of_operator longest.formed <;> cases same <;> rfl

theorem longest_symbol {c : Char} {rest text : List Char} {kind : Kind}
    (given : (cutSymbol c rest).1 = .token kind text) :
    Longest Operator (c :: rest) text ∧
      ∃ symbol, kind = .symbol symbol ∧ String.ofList text = symbol.text := by
  unfold cutSymbol at given
  split at given
  · rename_i symbol after found
    cases given
    have spelled := withEqual?_iff.mp found
    refine ⟨⟨?_, ⟨symbol, spelled⟩, ?_⟩, symbol, rfl, by rw [← spelled, String.ofList_toList]⟩
    · exact List.cons_prefix_cons.mpr ⟨rfl, List.cons_prefix_cons.mpr ⟨rfl, List.nil_prefix⟩⟩
    · intro other _ operator
      cases spelled_of_operator operator <;> simp
  · rename_i alone
    split at given
    · rename_i symbol found
      cases given
      have spelled := single?_iff.mp found
      refine ⟨⟨?_, ⟨symbol, spelled⟩, ?_⟩, symbol, rfl, by rw [← spelled, String.ofList_toList]⟩
      · exact List.cons_prefix_cons.mpr ⟨rfl, List.nil_prefix⟩
      · intro other starts operator
        cases spelled_of_operator operator with
        | one _ => exact le_rfl
        | @two d pair both =>
          obtain ⟨tail, same⟩ := starts
          cases same
          exact absurd rfl (alone pair tail both)
    · cases given

theorem cutSymbol_stray {c d : Char} {rest : List Char} (given : (cutSymbol c rest).1 = .stray d) :
    d = c ∧ single? c = none := by
  unfold cutSymbol at given
  split at given
  · cases given
  · split at given
    · cases given
    · cases given
      exact ⟨rfl, ‹_›⟩

/-! ### Items -/

theorem slashes_iff {c : Char} {rest : List Char} :
    ['/', '/'] <+: c :: rest ↔ c = '/' ∧ rest.head? = some '/' := by
  cases rest <;> simp [List.cons_prefix_cons, eq_comm]

section Begins

variable {c : Char} {rest : List Char}

theorem Item.Begins.of_token {token : Token} (apart : ¬ isBlank c ∧ ¬ ['/', '/'] <+: c :: rest)
    (munches : Munches c rest token) (known : ¬ Foreign c) (closed : c = '"' → '"' ∈ rest) :
    (Item.token token).Begins c rest where
  apart := apart
  token other same := by
    cases same
    exact munches
  stray d := ⟨nofun, fun ⟨_, foreign⟩ => absurd foreign known⟩
  unclosed := ⟨nofun, fun ⟨quote, absent⟩ => absurd (closed quote) absent⟩

/-- What starts neither a comment nor a string. -/
theorem Item.Begins.of_plain {token : Token} (blank : ¬ isBlank c) (other : c ≠ '/' ∧ c ≠ '"')
    (munches : Munches c rest token) (known : ¬ Foreign c) : (Item.token token).Begins c rest :=
  .of_token ⟨blank, fun slashes => other.1 (slashes_iff.mp slashes).1⟩ munches known
    fun quote => absurd quote other.2

theorem Item.Begins.of_stray (apart : ¬ isBlank c ∧ ¬ ['/', '/'] <+: c :: rest) (foreign : Foreign c)
    (line : Nat) : (Item.complaint line (.unexpected c)).Begins c rest where
  apart := apart
  token other same := by cases same
  stray d := by
    constructor
    · rintro ⟨_, same⟩
      cases same
      exact ⟨rfl, foreign⟩
    · rintro ⟨rfl, _⟩
      exact ⟨line, rfl⟩
  unclosed := ⟨nofun, fun ⟨quote, _⟩ => absurd quote foreign.quote⟩

theorem Item.Begins.of_unclosed (apart : ¬ isBlank '"' ∧ ¬ ['/', '/'] <+: '"' :: rest)
    (absent : '"' ∉ rest) (line : Nat) : (Item.complaint line .unterminated).Begins '"' rest where
  apart := apart
  token other same := by cases same
  stray d := ⟨nofun, fun ⟨_, foreign⟩ => absurd rfl foreign.quote⟩
  unclosed := ⟨fun _ => ⟨rfl, absent⟩, fun _ => ⟨line, rfl⟩⟩

variable {line : Nat} {item : Item}

theorem begins_of_string (given : (cutString rest).1.item? line = some item) :
    item.Begins '"' rest := by
  have apart : ¬ isBlank '"' ∧ ¬ ['/', '/'] <+: '"' :: rest :=
    ⟨by decide, fun slashes => absurd (slashes_iff.mp slashes).1 (by decide)⟩
  cases piece : (cutString rest).1 with
  | blank text | stray d =>
    unfold cutString at piece
    split at piece <;> cases piece
  | token kind text =>
    rw [piece] at given
    cases given
    refine .of_token apart (munches_string line piece) (fun foreign => foreign.quote rfl) fun _ => ?_
    by_contra absent
    obtain ⟨text, unclosed⟩ := (unclosed_iff rest).mpr absent
    rw [piece] at unclosed
    cases unclosed
  | unclosed text =>
    rw [piece] at given
    cases given
    exact .of_unclosed apart ((unclosed_iff rest).mp ⟨text, piece⟩) line

theorem begins_of_symbol (apart : ¬ isBlank c ∧ ¬ ['/', '/'] <+: c :: rest) (letter : ¬ isLetter c)
    (digit : ¬ isDigit c) (quote : c ≠ '"') (given : (cutSymbol c rest).1.item? line = some item) :
    item.Begins c rest := by
  cases piece : (cutSymbol c rest).1 with
  | blank text | unclosed text =>
    unfold cutSymbol at piece
    split at piece
    · cases piece
    · split at piece <;> cases piece
  | token kind text =>
    rw [piece] at given
    cases given
    obtain ⟨longest, symbol, known, spelled⟩ := longest_symbol piece
    refine .of_token apart ?_ (fun stray => stray.symbol text longest.formed longest.head?_eq)
      fun same => absurd same quote
    unfold Munches
    rw [if_neg letter, if_neg digit, if_neg quote]
    dsimp only
    rw [String.toList_ofList]
    exact ⟨longest, ⟨symbol, known, spelled⟩, apart.2⟩
  | stray d =>
    rw [piece] at given
    cases given
    obtain ⟨rfl, none⟩ := cutSymbol_stray piece
    exact .of_stray apart ((foreign_iff apart.1 letter digit quote).mpr none) line

/-- An item tells what the text starts with that it was cut from. -/
theorem begins_of_cut (given : (cut c rest).1.item? line = some item) : item.Begins c rest := by
  unfold cut at given
  split at given
  · cases given
  rename_i blank
  split at given
  · rename_i letter
    cases given
    have other : c ≠ '/' ∧ c ≠ '"' := by
      constructor <;> rintro rfl <;> exact absurd letter (by decide)
    exact .of_plain blank other (munches_word letter rest line) fun foreign => foreign.letter letter
  rename_i letter
  split at given
  · rename_i digit
    obtain ⟨value, text, cut⟩ := cutNumber_kind (c :: rest)
    rw [cut] at given
    cases given
    have other : c ≠ '/' ∧ c ≠ '"' := by
      constructor <;> rintro rfl <;> exact absurd digit (by decide)
    exact .of_plain blank other (munches_number letter digit rest line cut)
      fun foreign => foreign.digit digit
  rename_i digit
  split at given
  · rename_i quote
    subst quote
    exact begins_of_string given
  rename_i quote
  split at given
  · cases given
  rename_i comment
  exact begins_of_symbol ⟨blank, fun slashes => comment (slashes_iff.mp slashes)⟩ letter digit quote given

end Begins

theorem reads_of_heads {text : List Char} {item : Item} (heads : item.Heads text) :
    item.Reads text := by
  cases text with
  | nil => exact heads
  | cons c rest =>
    obtain ⟨line, given⟩ := heads
    exact begins_of_cut given

/-- Each item of a text stands where blanks and comments are over, and tells what the text starts with
there. A token is the longest of its form: a word, a number, a string or a symbol. A character is stray
exactly where it starts none of them, and a string is unclosed exactly where no other quote follows. -/
theorem scan_longest (source : String) :
    ∃ items last spans, scan source = items ++ [.token (.eof last)] ∧
      Accounted source.startPos items last spans ∧
      List.Forall₂ (fun span item => ∃ before text,
        span.first.Splits before (String.ofList text) ∧ item.Reads text)
        spans (items ++ [.token (.eof last)]) := by
  have whole : source.startPos.Splits "" (String.ofList source.toList) := by
    rw [String.ofList_toList]
    exact source.splits_startPos
  obtain ⟨items, last, spans, given, accounted, headed⟩ := headed_from source.toList 1 whole
  refine ⟨items, last, spans, given, accounted, headed.imp ?_⟩
  rintro span item ⟨before, text, split, heads⟩
  exact ⟨before, text, split, reads_of_heads heads⟩

end Source
end Lox
