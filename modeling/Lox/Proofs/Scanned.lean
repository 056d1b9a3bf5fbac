import Mathlib.Data.List.TakeWhile
import Lox.Proofs.Words

/-! Scans of texts that are put together. Further down a text gives the same items on later lines,
and a text with nothing to complain of gives the same items whatever its last line is followed by. -/

namespace Lox

/-- The same token some lines further down. -/
def Token.lower (count : Nat) (token : Token) : Token := { token with line := token.line + count }

namespace Source

def Item.lower (count : Nat) : Item → Item
  | .token word => .token (word.lower count)
  | .complaint line text => .complaint (line + count) text

/-- What a text gives from a line on. -/
def itemsFrom (line : Nat) (text : List Char) : List Item := Cursor.toList ⟨text, line, false⟩

theorem itemsFrom_eq (line : Nat) (text : List Char) :
    itemsFrom line text =
      (Cursor.nextFrom line text).1 :: (Cursor.nextFrom line text).2.toList := by
  rw [itemsFrom, Cursor.toList]
  rfl

theorem itemsFrom_nil (line : Nat) : itemsFrom line [] = [.token (.eof line)] := by
  rw [itemsFrom_eq, Cursor.nextFrom, Cursor.toList]
  rfl

/-! ### Newlines

Words, numbers, symbols, comments and stray characters hold none. So what is counted of blanks and
strings are all the newlines of a piece. -/

theorem newlines_append (first second : List Char) :
    newlines (first ++ second) = newlines first + newlines second :=
  List.count_append

theorem lineThrough_eq (line : Nat) (inside : List Char) :
    lineThrough line inside = line + newlines inside := by
  induction inside generalizing line with
  | nil => rfl
  | cons c rest ih =>
    rw [lineThrough, List.foldl_cons, ← lineThrough, ih, newlines, newlines, List.count_cons]
    by_cases newline : c = '\n' <;> simp [newline]
    omega

theorem newlines_takeWhile {p : Char → Bool} (stops : p '\n' = false) (text : List Char) :
    newlines (text.takeWhile p) = 0 := by
  refine List.count_eq_zero.mpr fun member => ?_
  have goes := List.mem_takeWhile_imp member
  rw [stops] at goes
  cases goes

theorem newlines_word (text : List Char) : newlines (cutWord text).1.text = 0 :=
  newlines_takeWhile (by decide) text

theorem newlines_number (text : List Char) : newlines (cutNumber text).1.text = 0 := by
  have whole : newlines (text.takeWhile isDigit) = 0 := newlines_takeWhile (by decide) text
  unfold cutNumber
  split
  · rename_i rest _
    have fraction : newlines ('.' :: rest.takeWhile isDigit) = 0 :=
      newlines_takeWhile (p := isDigit) (by decide) rest
    dsimp only
    split
    · exact whole
    · exact (newlines_append _ _).trans (by rw [whole, fraction])
  · exact whole

theorem newlines_comment (text : List Char) : newlines (cutComment text).1.text = 0 :=
  newlines_takeWhile (by decide) text

theorem newlines_symbol {c : Char} (other : c ≠ '\n') (rest : List Char) :
    newlines (cutSymbol c rest).1.text = 0 := by
  have first : newlines [c] = 0 := List.count_eq_zero.mpr (by simpa using other.symm)
  have both : newlines [c, '='] = 0 := (newlines_append [c] ['=']).trans (by rw [first]; rfl)
  unfold cutSymbol
  split
  · exact both
  · split <;> exact first

theorem lineAfter_word (line : Nat) (text : List Char) :
    (cutWord text).1.lineAfter line = line := by
  unfold cutWord wordKind
  dsimp only
  split <;> rfl

theorem lineAfter_number (line : Nat) (text : List Char) :
    (cutNumber text).1.lineAfter line = line := by
  obtain ⟨value, spelled, same⟩ := cutNumber_kind text
  rw [same]
  rfl

theorem lineAfter_symbol (line : Nat) (c : Char) (rest : List Char) :
    (cutSymbol c rest).1.lineAfter line = line := by
  unfold cutSymbol
  split
  · rfl
  · split <;> rfl

/-- A blank text is a newline, or there is none in it. -/
theorem lineAfter_blank (line : Nat) {text : List Char} (none : newlines text = 0) :
    (Piece.blank text).lineAfter line = line := by
  unfold Piece.lineAfter
  split
  · rename_i same
    cases same
    cases none
  all_goals first | rfl | cases ‹Piece.blank text = _›

/-- The quotes of a string are no newlines, and all between them are counted. -/
theorem lineAfter_string (line : Nat) (text : List Char) :
    (cutString text).1.lineAfter line = line + newlines (cutString text).1.text := by
  have quoted (inside : List Char) : newlines ('"' :: inside) = newlines inside :=
    newlines_append ['"'] inside |>.trans (Nat.zero_add _)
  unfold cutString
  dsimp only
  split
  · exact (lineThrough_eq ..).trans (congrArg (line + ·) (quoted _).symm)
  · rename_i quote rest after
    have closing : quote = '"' := by
      have stopped := List.head?_dropWhile_not (· != '"') text
      simpa [after] using stopped
    subst closing
    refine (lineThrough_eq ..).trans (congrArg (line + ·) ?_)
    change _ = newlines (('"' :: text.takeWhile (· != '"')) ++ ['"'])
    rw [String.toList_ofList, newlines_append, quoted]
    rfl

theorem lineAfter_cut (line : Nat) (c : Char) (rest : List Char) :
    (cut c rest).1.lineAfter line = line + newlines (cut c rest).1.text := by
  unfold cut
  split
  · by_cases newline : c = '\n'
    · subst newline
      rfl
    · have none : newlines [c] = 0 := List.count_eq_zero.mpr (by simpa using Ne.symm newline)
      exact (lineAfter_blank line none).trans (by rw [Piece.text, none]; rfl)
  rename_i notBlank
  split
  · rw [lineAfter_word, newlines_word]
    rfl
  split
  · rw [lineAfter_number, newlines_number]
    rfl
  split
  · exact lineAfter_string line rest
  split
  · have none := newlines_comment (c :: rest)
    exact (lineAfter_blank line none).trans (by rw [none]; rfl)
  · have other : c ≠ '\n' := by
      rintro rfl
      exact notBlank (by decide)
    rw [lineAfter_symbol, newlines_symbol other]
    rfl

/-- One piece gives an item or none, and the rest of the text the others. -/
theorem itemsFrom_cons (line : Nat) (c : Char) (rest : List Char) :
    itemsFrom line (c :: rest) =
      ((cut c rest).1.item? (line + newlines (cut c rest).1.text)).toList ++
        itemsFrom (line + newlines (cut c rest).1.text) (cut c rest).2 := by
  rw [itemsFrom_eq, Cursor.nextFrom, lineAfter_cut]
  cases given : (cut c rest).1.item? (line + newlines (cut c rest).1.text) with
  | some item => rfl
  | none =>
    dsimp only [Option.toList]
    rw [List.nil_append, itemsFrom_eq]

/-! ### Further down -/

theorem item_lower (count line : Nat) (piece : Piece) :
    piece.item? (line + count) = (piece.item? line).map (Item.lower count) := by
  cases piece <;> rfl

theorem itemsFrom_lower (count line : Nat) :
    (text : List Char) → itemsFrom (line + count) text = (itemsFrom line text).map (Item.lower count)
  | [] => by
    rw [itemsFrom_nil, itemsFrom_nil]
    rfl
  | c :: rest => by
    have later := itemsFrom_lower count (line + newlines (cut c rest).1.text) (cut c rest).2
    have moved : line + count + newlines (cut c rest).1.text =
        line + newlines (cut c rest).1.text + count := Nat.add_right_comm ..
    rw [itemsFrom_cons, itemsFrom_cons, moved, later, item_lower, List.map_append]
    cases (cut c rest).1.item? _ <;> rfl
termination_by text => text.length
decreasing_by
  have := length_cut c rest
  simp only [List.length_cons]
  omega

/-- A text with empty lines before it. -/
def lowered (count : Nat) (source : String) : String :=
  String.ofList (List.replicate count '\n') ++ source

theorem itemsFrom_blank (count line : Nat) (text : List Char) :
    itemsFrom line (List.replicate count '\n' ++ text) = itemsFrom (line + count) text := by
  induction count generalizing line with
  | zero => rfl
  | succ count ih =>
    have blank (rest : List Char) : cut '\n' rest = (.blank ['\n'], rest) := rfl
    rw [List.replicate_succ, List.cons_append, itemsFrom_cons, blank]
    dsimp only [Piece.item?, Piece.text, Option.toList]
    rw [List.nil_append, ih]
    congr 1
    change line + 1 + count = line + (count + 1)
    omega

theorem scan_lowered_eq (count : Nat) (source : String) :
    scan (lowered count source) = itemsFrom (1 + count) source.toList := by
  rw [← itemsFrom_blank]
  simp [scan, Cursor.start, itemsFrom, lowered]

theorem scan_lowered (count : Nat) (source : String) :
    scan (lowered count source) = (scan source).map (Item.lower count) := by
  rw [scan_lowered_eq, itemsFrom_lower]
  rfl

theorem scan_lowered_add (first count : Nat) (source : String) :
    scan (lowered (first + count) source) =
      (scan (lowered first source)).map (Item.lower count) := by
  rw [scan_lowered_eq, scan_lowered_eq, ← Nat.add_assoc, itemsFrom_lower]

theorem lowered_zero (source : String) : lowered 0 source = source := by
  simp [lowered]

theorem tokens_lower (count : Nat) (items : List Item) :
    tokens (items.map (Item.lower count)) = (tokens items).map (Token.lower count) := by
  unfold tokens
  rw [List.filterMap_map, List.map_filterMap]
  congr 1
  funext item
  cases item <;> rfl

theorem faults_lower (count : Nat) {items : List Item} (clean : faults items = []) :
    faults (items.map (Item.lower count)) = [] := by
  unfold faults at clean ⊢
  rw [List.filterMap_eq_nil_iff] at clean ⊢
  intro item member
  obtain ⟨before, listed, rfl⟩ := List.mem_map.mp member
  have none := clean before listed
  cases before with
  | token => rfl
  | complaint => cases none

/-! ### Before another text -/

section Before

variable (p : Char → Bool) (stops : p '\n' = false) (more : List Char)
include stops

theorem takeWhile_before (text : List Char) :
    (text ++ '\n' :: more).takeWhile p = text.takeWhile p := by
  induction text with
  | nil => simp [stops]
  | cons c rest ih => by_cases first : p c <;> simp [first, ih]

theorem dropWhile_before (text : List Char) :
    (text ++ '\n' :: more).dropWhile p = text.dropWhile p ++ '\n' :: more := by
  induction text with
  | nil => simp [stops]
  | cons c rest ih => by_cases first : p c <;> simp [first, ih]

end Before

theorem first_before (more : List Char) {c : Char} (other : c ≠ '\n') {text : List Char}
    (absent : ∀ rest, text ≠ c :: rest) : ∀ rest, text ++ '\n' :: more ≠ c :: rest := by
  intro rest same
  cases text with
  | nil => exact other (List.cons.inj same).1.symm
  | cons first others => exact absent others (by rw [(List.cons.inj same).1])

/-- The text has ended within a string. -/
def Piece.isUnclosed : Piece → Bool
  | unclosed _ => true
  | _ => false

/-- The same piece of a text that is followed by another on the next line. -/
def followed (more : List Char) (cutting : Piece × List Char) : Piece × List Char :=
  (cutting.1, cutting.2 ++ '\n' :: more)

theorem cutWord_before (more text : List Char) :
    cutWord (text ++ '\n' :: more) = followed more (cutWord text) := by
  unfold cutWord
  rw [takeWhile_before isWordChar (by decide), dropWhile_before isWordChar (by decide)]
  rfl

theorem cutNumber_whole {text : List Char} (whole : ∀ rest, text.dropWhile isDigit ≠ '.' :: rest) :
    cutNumber text = (.token (.number (Decimal.read (text.takeWhile isDigit) []))
      (text.takeWhile isDigit), text.dropWhile isDigit) := by
  unfold cutNumber
  split
  · exact absurd ‹_› (whole _)
  · rfl

theorem cutNumber_point {text rest : List Char} (point : text.dropWhile isDigit = '.' :: rest) :
    cutNumber text =
      if (rest.takeWhile isDigit).isEmpty then
        (.token (.number (Decimal.read (text.takeWhile isDigit) [])) (text.takeWhile isDigit),
          '.' :: rest)
      else
        (.token (.number (Decimal.read (text.takeWhile isDigit) (rest.takeWhile isDigit)))
          (text.takeWhile isDigit ++ '.' :: rest.takeWhile isDigit), rest.dropWhile isDigit) := by
  unfold cutNumber
  rw [point]
  rfl

theorem cutNumber_before (more text : List Char) :
    cutNumber (text ++ '\n' :: more) = followed more (cutNumber text) := by
  have taken := takeWhile_before isDigit (by decide) more
  have left := dropWhile_before isDigit (by decide) more
  by_cases point : ∃ rest, text.dropWhile isDigit = '.' :: rest
  · obtain ⟨rest, point⟩ := point
    have still : (text ++ '\n' :: more).dropWhile isDigit = '.' :: (rest ++ '\n' :: more) := by
      rw [left, point]
      rfl
    rw [cutNumber_point point, cutNumber_point still, taken, taken, left]
    split <;> rfl
  · have whole : ∀ rest, text.dropWhile isDigit ≠ '.' :: rest := fun rest same => point ⟨rest, same⟩
    have still : ∀ rest, (text ++ '\n' :: more).dropWhile isDigit ≠ '.' :: rest := by
      rw [left]
      exact first_before more (by decide) whole
    rw [cutNumber_whole whole, cutNumber_whole still, taken, left]
    rfl

theorem cutString_before (more text : List Char) (closed : (cutString text).1.isUnclosed = false) :
    cutString (text ++ '\n' :: more) = followed more (cutString text) := by
  unfold cutString at closed ⊢
  cases after : text.dropWhile (· != '"') with
  | nil =>
    rw [after] at closed
    cases closed
  | cons quote rest =>
    have whole := List.takeWhile_append_dropWhile (p := (· != '"')) (l := text)
    rw [after] at whole
    have longer : (text.takeWhile (· != '"')).length ≠ text.length := by
      intro same
      have sum := congrArg List.length whole
      rw [List.length_append, List.length_cons] at sum
      omega
    rw [List.dropWhile_append, List.takeWhile_append, after, if_neg longer]
    rfl

theorem cutComment_before (more text : List Char) :
    cutComment (text ++ '\n' :: more) = followed more (cutComment text) := by
  unfold cutComment
  rw [takeWhile_before (· != '\n') (by decide), dropWhile_before (· != '\n') (by decide)]
  rfl

theorem cutSymbol_alone {c : Char} {rest : List Char}
    (alone : ∀ tail, rest ≠ '=' :: tail) : cutSymbol c rest =
      match single? c with
      | some symbol => (.token (.symbol symbol) [c], rest)
      | none => (.stray c, rest) := by
  unfold cutSymbol
  split
  · exact absurd rfl (alone _)
  · rfl

theorem cutSymbol_before (more : List Char) (c : Char) (rest : List Char) :
    cutSymbol c (rest ++ '\n' :: more) = followed more (cutSymbol c rest) := by
  by_cases equal : ∃ tail, rest = '=' :: tail
  · obtain ⟨tail, rfl⟩ := equal
    unfold cutSymbol
    cases withEqual? c with
    | some symbol => rfl
    | none => cases single? c <;> rfl
  · have alone : ∀ tail, rest ≠ '=' :: tail := fun tail same => equal ⟨tail, same⟩
    rw [cutSymbol_alone alone, cutSymbol_alone (first_before more (by decide) alone)]
    cases single? c <;> rfl

theorem cut_before (more : List Char) (c : Char) (rest : List Char)
    (closed : (cut c rest).1.isUnclosed = false) :
    cut c (rest ++ '\n' :: more) = followed more (cut c rest) := by
  have comment : (rest ++ '\n' :: more).head? = some '/' ↔ rest.head? = some '/' := by
    cases rest <;> simp
  unfold cut at closed ⊢
  simp only [comment]
  split
  · rfl
  split
  · exact cutWord_before more (c :: rest)
  split
  · exact cutNumber_before more (c :: rest)
  split
  · exact cutString_before more rest (by simp_all)
  split
  · exact cutComment_before more (c :: rest)
  · exact cutSymbol_before more c rest

/-! ### Whole texts -/

theorem wordKind_ne_eof (word : List Char) : wordKind word ≠ .eof := by
  unfold wordKind
  split <;> nofun

theorem cut_ne_eof {c : Char} {rest : List Char} {kind : Kind} {text : List Char}
    (given : (cut c rest).1 = .token kind text) : kind ≠ .eof := by
  unfold cut at given
  split at given
  · cases given
  split at given
  · cases given
    exact wordKind_ne_eof _
  split at given
  · obtain ⟨value, spelled, same⟩ := cutNumber_kind (c :: rest)
    rw [same] at given
    cases given
    simp
  split at given
  · unfold cutString at given
    split at given <;> cases given
    simp
  split at given
  · cases given
  · unfold cutSymbol at given
    split at given
    · cases given
      simp
    · split at given <;> cases given
      simp

/-- Anything but the end. -/
def Item.Within : Item → Prop
  | .token word => word.kind ≠ .eof
  | .complaint .. => True

theorem faults_append (first second : List Item) :
    faults (first ++ second) = faults first ++ faults second :=
  List.filterMap_append

theorem tokens_append (first second : List Item) :
    tokens (first ++ second) = tokens first ++ tokens second :=
  List.filterMap_append

theorem tokens_concat (items : List Item) (word : Token) :
    tokens (items ++ [.token word]) = tokens items ++ [word] :=
  tokens_append items [.token word]

theorem tokens_within {items : List Item} (within : ∀ item ∈ items, item.Within) :
    ∀ token ∈ tokens items, token.kind ≠ .eof := by
  intro token member
  obtain ⟨item, listed, given⟩ := List.mem_filterMap.mp member
  have inside := within item listed
  cases item with
  | token word =>
    cases given
    exact inside
  | complaint => cases given

theorem closed_of_never {piece : Piece} {line : Nat}
    (never : ∀ other, .complaint other .unterminated ∉ (piece.item? line).toList) :
    piece.isUnclosed = false := by
  cases piece with
  | unclosed text => exact absurd (List.mem_singleton_self _) (never line)
  | _ => rfl

theorem never_of_clean {items : List Item} (clean : faults items = []) (line : Nat) :
    .complaint line .unterminated ∉ items := by
  intro member
  have complained : Fault.lex line .unterminated ∈ faults items :=
    List.mem_filterMap.mpr ⟨_, member, rfl⟩
  rw [clean] at complained
  cases complained

theorem cut_within {c : Char} {rest : List Char} {line : Nat} :
    ∀ item ∈ ((cut c rest).1.item? line).toList, item.Within := by
  intro item member
  cases shape : (cut c rest).1 with
  | token kind text =>
    rw [shape] at member
    rw [List.mem_singleton.mp member]
    exact cut_ne_eof shape
  | blank text =>
    rw [shape] at member
    cases member
  | stray c | unclosed text =>
    rw [shape] at member
    rw [List.mem_singleton.mp member]
    trivial

/-- What is given of a text that does not end within a string, up to its end, is given also when more
follows on the next line. -/
theorem itemsFrom_before (more : List Char) (line : Nat) :
    (text : List Char) → (∀ other, .complaint other .unterminated ∉ itemsFrom line text) →
      ∃ before : List Item, (∀ item ∈ before, item.Within) ∧
        itemsFrom line text = before ++ [.token (.eof (line + newlines text))] ∧
        itemsFrom line (text ++ '\n' :: more) =
          before ++ itemsFrom (line + newlines text + 1) more
  | [], _ => by
    refine ⟨[], fun _ => nofun, itemsFrom_nil line, ?_⟩
    exact itemsFrom_blank 1 line more
  | c :: rest, never => by
    rw [itemsFrom_cons] at never
    have here := fun other member => never other (List.mem_append_left _ member)
    have later := fun other member => never other (List.mem_append_right _ member)
    obtain ⟨before, within, given, still⟩ := itemsFrom_before more _ (cut c rest).2 later
    have lines : line + newlines (c :: rest) =
        line + newlines (cut c rest).1.text + newlines (cut c rest).2 := by
      rw [Nat.add_assoc, ← newlines_append, text_cut]
    rw [← lines] at given still
    let item := (cut c rest).1.item? (line + newlines (cut c rest).1.text)
    refine ⟨item.toList ++ before, ?_, ?_, ?_⟩
    · intro found member
      rcases List.mem_append.mp member with first | others
      · exact cut_within found first
      · exact within found others
    · rw [itemsFrom_cons, given, List.append_assoc]
    · rw [List.cons_append, itemsFrom_cons, cut_before more c rest (closed_of_never here)]
      dsimp only [followed]
      rw [still, List.append_assoc]
termination_by text => text.length
decreasing_by
  have := length_cut c rest
  simp only [List.length_cons]
  omega

/-- Two texts of which the second starts on a new line give what they give on their own, but for
the end of the first. -/
theorem scan_before {a : String} (never : ∀ line, .complaint line .unterminated ∉ scan a)
    (b : String) :
    ∃ before : List Item, (∀ item ∈ before, item.Within) ∧
      scan a = before ++ [.token (.eof (1 + newlines a.toList))] ∧
      scan (a ++ "\n" ++ b) = before ++ scan (lowered (1 + newlines a.toList) b) := by
  obtain ⟨before, within, given, still⟩ := itemsFrom_before b.toList 1 a.toList never
  refine ⟨before, within, given, ?_⟩
  rw [scan_lowered_eq, ← Nat.add_assoc, Nat.add_right_comm 1 1, ← still]
  simp [scan, Cursor.start, itemsFrom]

theorem scan_joined {p : String} (clean : faults (scan p) = []) (q : String) :
    ∃ before : List Item, (∀ item ∈ before, item.Within) ∧
      scan p = before ++ [.token (.eof (1 + newlines p.toList))] ∧
      scan (p ++ "\n" ++ q) = before ++ scan (lowered (1 + newlines p.toList) q) :=
  scan_before (never_of_clean clean) q

end Source
end Lox
