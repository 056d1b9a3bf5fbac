import Mathlib
import Lox.Proofs.Longest

/-! Lexemes scanned again. What a token was cut from is cut into the same token wherever a space
comes after it or nothing, so the lexemes of a text with spaces between them give its tokens once
more. -/

namespace Lox.Source

/-- What follows starts with a space, if there is any. -/
def Spaced (more : List Char) : Prop := ∀ c rest, more = c :: rest → c = ' '

variable {more : List Char}

theorem spaced_nil : Spaced [] := nofun

theorem spaced_cons (rest : List Char) : Spaced (' ' :: rest) := by
  rintro c others same
  cases same
  rfl

/-- No space is taken for more of the same. -/
theorem Spaced.stops (spaced : Spaced more) {p : Char → Bool} (other : p ' ' = false) :
    ∀ c rest, more = c :: rest → p c = false := by
  intro c rest same
  rw [spaced c rest same]
  exact other

/-! ### One piece -/

theorem cutWord_again (spaced : Spaced more) (text : List Char) :
    cutWord ((cutWord text).1.text ++ more) = ((cutWord text).1, more) := by
  obtain ⟨taken, left⟩ :=
    takeWhile_stop (takeWhile_all text isWordChar) (spaced.stops (p := isWordChar) (by decide))
  dsimp only [cutWord, Piece.text]
  rw [taken, left]

theorem cutNumber_again (spaced : Spaced more) (text : List Char) :
    cutNumber ((cutNumber text).1.text ++ more) = ((cutNumber text).1, more) := by
  have digits := spaced.stops (p := isDigit) (by decide)
  have whole : cutNumber (text.takeWhile isDigit ++ more) =
      (.token (.number (Decimal.read (text.takeWhile isDigit) [])) (text.takeWhile isDigit),
        more) := by
    obtain ⟨taken, left⟩ := takeWhile_stop (takeWhile_all text isDigit) digits
    have ends : ∀ rest, (text.takeWhile isDigit ++ more).dropWhile isDigit ≠ '.' :: rest := by
      intro rest same
      rw [left] at same
      exact absurd (spaced _ _ same) (by decide)
    rw [cutNumber_whole ends, taken, left]
  by_cases point : ∃ rest, text.dropWhile isDigit = '.' :: rest
  · obtain ⟨rest, point⟩ := point
    rw [cutNumber_point point]
    split
    · exact whole
    · rename_i some_fraction
      obtain ⟨before, after⟩ := takeWhile_point (rest.takeWhile isDigit ++ more) (by decide)
        (takeWhile_all text isDigit)
      obtain ⟨taken, left⟩ := takeWhile_stop (takeWhile_all rest isDigit) digits
      dsimp only [Piece.text]
      rw [List.append_assoc, List.cons_append, cutNumber_point after, before, taken, left,
        if_neg some_fraction]
  · rw [cutNumber_whole fun rest same => point ⟨rest, same⟩]
    exact whole

theorem cutString_again {rest : List Char} {kind : Kind} {text : List Char}
    (given : (cutString rest).1 = .token kind text) (more : List Char) :
    ∃ tail, text = '"' :: tail ∧ cutString (tail ++ more) = (.token kind text, more) := by
  unfold cutString at given
  split at given
  · cases given
  · rename_i quote after same
    cases given
    obtain rfl : quote = '"' := by simpa using first_dropWhile same
    refine ⟨rest.takeWhile (· != '"') ++ ['"'], rfl, ?_⟩
    have stops : ∀ c others, '"' :: more = c :: others → (c != '"') = false := by
      rintro c others same
      cases same
      rfl
    obtain ⟨taken, left⟩ := takeWhile_stop (takeWhile_all rest (· != '"')) stops
    rw [List.append_assoc, List.singleton_append, cutString, taken, left]

theorem cutSymbol_again (spaced : Spaced more) {c : Char} {rest : List Char} {kind : Kind}
    {text : List Char} (given : (cutSymbol c rest).1 = .token kind text) :
    ∃ tail, text = c :: tail ∧ cutSymbol c (tail ++ more) = (.token kind text, more) ∧
      (tail ++ more).head? ≠ some '/' := by
  unfold cutSymbol at given
  split at given
  · rename_i symbol after found
    cases given
    refine ⟨['='], rfl, ?_, by simp⟩
    simp only [List.singleton_append, cutSymbol, found]
  · split at given
    · rename_i symbol found
      cases given
      refine ⟨[], rfl, ?_, ?_⟩
      · have alone : ∀ tail, more ≠ '=' :: tail := by
          intro tail same
          exact absurd (spaced _ _ same) (by decide)
        rw [List.nil_append, cutSymbol_alone alone, found]
      · intro first
        obtain ⟨tail, same⟩ := List.head?_eq_some_iff.mp first
        exact absurd (spaced _ _ same) (by decide)
    · cases given

/-- What a token was cut from gives the token again. -/
theorem cut_again {c : Char} {rest : List Char} {kind : Kind} {text : List Char}
    (given : (cut c rest).1 = .token kind text) :
    ∃ tail, text = c :: tail ∧
      ∀ more, Spaced more → cut c (tail ++ more) = (.token kind text, more) := by
  obtain ⟨tail, rfl⟩ : ∃ tail, text = c :: tail := by
    have whole := text_cut c rest
    have some_text := cut_text_ne_nil c rest
    rw [given] at whole some_text
    obtain ⟨first, tail, rfl⟩ := List.exists_cons_of_ne_nil some_text
    exact ⟨tail, by rw [(List.cons.inj whole).1]⟩
  refine ⟨tail, rfl, fun more spaced => ?_⟩
  unfold cut at given ⊢
  split at given
  · cases given
  rename_i blank
  rw [if_neg blank]
  split at given
  · rename_i letter
    have again := cutWord_again spaced (c :: rest)
    rw [given] at again
    rw [if_pos letter]
    exact again
  rename_i letter
  rw [if_neg letter]
  split at given
  · rename_i digit
    have again := cutNumber_again spaced (c :: rest)
    rw [given] at again
    rw [if_pos digit]
    exact again
  rename_i digit
  rw [if_neg digit]
  split at given
  · rename_i quote
    obtain ⟨others, same, again⟩ := cutString_again given more
    rw [if_pos quote, (List.cons.inj same).2]
    exact (List.cons.inj same).2 ▸ again
  rename_i quote
  rw [if_neg quote]
  split at given
  · cases given
  obtain ⟨others, same, again, next⟩ := cutSymbol_again spaced given
  cases same
  rw [if_neg fun slashes => next slashes.2]
  exact again

/-! ### All tokens -/

/-- Its lexeme is read as the token itself. -/
def Rereads (word : Token) : Prop :=
  ∃ c tail, word.lexeme.toList = c :: tail ∧
    ∀ more, Spaced more → cut c (tail ++ more) = (.token word.kind (c :: tail), more)

theorem rereads_of_heads {word : Token} {text : List Char} (heads : (Item.token word).Heads text)
    (unended : word.kind ≠ .eof) : Rereads word := by
  cases text with
  | nil =>
    obtain ⟨line, same⟩ := heads
    cases same
    exact absurd rfl unended
  | cons c rest =>
    obtain ⟨line, given⟩ := heads
    cases piece : (cut c rest).1 with
    | blank text | stray d | unclosed text =>
      rw [piece] at given
      cases given
    | token kind text =>
      rw [piece] at given
      cases given
      obtain ⟨tail, rfl, again⟩ := cut_again piece
      exact ⟨c, tail, String.toList_ofList, again⟩

/-- The same token, on whatever line. -/
def Recurs (word other : Token) : Prop := other.kind = word.kind ∧ other.lexeme = word.lexeme

theorem itemsFrom_space (line : Nat) (more : List Char) :
    itemsFrom line (' ' :: more) = itemsFrom line more :=
  itemsFrom_cons line ' ' more

/-- A lexeme gives its token, and what follows it the others. -/
theorem Rereads.items {word : Token} (rereads : Rereads word) {more : List Char}
    (spaced : Spaced more) (line : Nat) :
    ∃ lines, itemsFrom line (word.lexeme.toList ++ more) =
      .token { word with line := line + lines } :: itemsFrom (line + lines) more := by
  obtain ⟨c, tail, same, again⟩ := rereads
  refine ⟨newlines (c :: tail), ?_⟩
  rw [same, List.cons_append, itemsFrom_cons, again more spaced]
  dsimp only [Piece.item?, Piece.text, Option.toList]
  rw [← same, String.ofList_toList]
  rfl

/-- With spaces between them the lexemes give their tokens, and then the end. -/
theorem items_spaced (line : Nat) {words : List Token} (rereads : ∀ word ∈ words, Rereads word) :
    ∃ others last, itemsFrom line ([' '].intercalate (words.map (·.lexeme.toList))) =
        others.map .token ++ [.token (.eof last)] ∧
      List.Forall₂ Recurs words others := by
  induction words generalizing line with
  | nil => exact ⟨[], line, itemsFrom_nil line, .nil⟩
  | cons word rest ih =>
    obtain ⟨first, later⟩ := List.forall_mem_cons.mp rereads
    cases rest with
    | nil =>
      obtain ⟨lines, given⟩ := first.items spaced_nil line
      refine ⟨[{ word with line := line + lines }], line + lines, ?_, .cons ⟨rfl, rfl⟩ .nil⟩
      rw [List.append_nil, itemsFrom_nil] at given
      rw [List.map_singleton, List.intercalate_singleton, given]
      rfl
    | cons next rest =>
      obtain ⟨lines, given⟩ := first.items (spaced_cons _) line
      rw [itemsFrom_space] at given
      obtain ⟨others, last, onwards, recur⟩ := ih (line + lines) later
      refine ⟨{ word with line := line + lines } :: others, last, ?_, .cons ⟨rfl, rfl⟩ recur⟩
      have joined : [' '].intercalate ((word :: next :: rest).map (·.lexeme.toList)) =
          word.lexeme.toList ++
            ' ' :: [' '].intercalate ((next :: rest).map (·.lexeme.toList)) := by
        rw [List.map_cons, List.map_cons, List.intercalate_cons_cons, List.append_assoc]
        rfl
      rw [joined, given, onwards]
      rfl

/-- The lexemes of a text with single spaces between them are scanned without a complaint into its
tokens, of the same kinds and values and in the same order, and one end. -/
theorem scan_spaced (source : String) :
    ∃ words last others last', tokens (scan source) = words ++ [.eof last] ∧
      (∀ word ∈ words, word.kind ≠ .eof) ∧
      scan (" ".intercalate (words.map Token.lexeme)) =
        others.map .token ++ [.token (.eof last')] ∧
      List.Forall₂ Recurs words others := by
  obtain ⟨items, last, spans, given, accounted, headed, _⟩ := traced source
  have unended := tokens_within accounted.within
  have rereads : ∀ word ∈ tokens items, Rereads word := by
    intro word member
    obtain ⟨item, listed, same⟩ := List.mem_filterMap.mp member
    cases item with
    | complaint => cases same
    | token other =>
      cases same
      obtain ⟨index, inside, there⟩ := List.mem_iff_getElem.mp (List.mem_append_left _ listed)
      obtain ⟨_, text, _, heads⟩ := headed.get (headed.length_eq ▸ inside) inside
      rw [List.get_eq_getElem, there] at heads
      exact rereads_of_heads heads (unended word member)
  obtain ⟨others, last', again, recur⟩ := items_spaced 1 rereads
  refine ⟨tokens items, last, others, last', ?_, unended, ?_, recur⟩
  · rw [given, tokens_concat]
  · rw [← again, scan, Cursor.start, itemsFrom, String.toList_intercalate, List.map_map]
    rfl

end Lox.Source
