import Lox.Proofs.Scanners

/-! The scanner of bytes gives what a text is cut into. A test of bytes reads the characters of one
byte and takes the others for one another, so each routine ends where characters meet, and nothing
stops it for good. -/

namespace Lox.Source

open Text.Utf8

/-! ### Where a scanner stands -/

theorem newlines_encode (cs : List Char) : newlines ((encode cs).map Char.ofUInt8) = newlines cs := by
  induction cs with
  | nil => rfl
  | cons c rest ih =>
    rw [encode_cons, List.map_append, newlines_append, ih, ← List.singleton_append,
      newlines_append [c]]
    congr 1
    rcases Nat.lt_or_ge c.toNat 128 with ascii | wide
    · rw [encode_ascii ascii, List.map_singleton, ofUInt8_toUInt8 ascii]
    · obtain ⟨lead, taken, encoded, _, high⟩ := encode_wide wide
      have single : c ≠ '\n' := by
        rintro rfl
        exact absurd wide (by decide)
      have none : '\n' ∉ (lead :: taken).map Char.ofUInt8 := by
        intro member
        obtain ⟨byte, listed, same⟩ := List.mem_map.mp member
        have number := congrArg Char.toNat same
        exact absurd (high byte listed) (by rw [← toNat_ofUInt8, number]; decide)
      rw [encoded, newlines, newlines, List.count_eq_zero.mpr none,
        List.count_eq_zero.mpr (by simpa using single.symm)]

namespace Scanner

/-- What comes before the next byte, and what is left. -/
structure At (scanner : Scanner) (done left : List UInt8) : Prop where
  src : scanner.src = done ++ left
  curr : scanner.curr = done.length

/-- So many bytes further on. -/
def skip (scanner : Scanner) (count : Nat) : Scanner :=
  { scanner with curr := scanner.curr + count }

theorem skip_skip (scanner : Scanner) (first second : Nat) :
    (scanner.skip first).skip second = scanner.skip (first + second) := by
  rw [skip, skip, skip, Nat.add_assoc]

/-- So many lines further down. -/
def lower (scanner : Scanner) (lines : Nat) : Scanner :=
  { scanner with line := scanner.line + lines }

section At

variable {scanner : Scanner} {done left : List UInt8} (stands : scanner.At done left)
include stands

theorem At.getElem? (offset : Nat) : scanner.src[scanner.curr + offset]? = left[offset]? := by
  rw [stands.src, stands.curr, List.getElem?_append_right (Nat.le_add_right _ _),
    Nat.add_sub_cancel_left]

theorem At.peek : scanner.peek = left.head?.getD 0 := by
  rw [Scanner.peek, List.head?_eq_getElem?, ← stands.getElem? 0, Nat.add_zero]

theorem At.peekNext : scanner.peekNext = left.tail.head?.getD 0 := by
  rw [Scanner.peekNext, stands.getElem? 1, List.head?_eq_getElem?, List.getElem?_tail]

theorem At.peek_is {p : UInt8 → Bool} (zero : p 0 = false) :
    p scanner.peek = left.head?.any p := by
  rw [stands.peek]
  cases left <;> simp [zero]

theorem At.peekNext_is {p : UInt8 → Bool} (zero : p 0 = false) :
    p scanner.peekNext = left.tail.head?.any p := by
  rw [stands.peekNext]
  cases left.tail <;> simp [zero]

theorem At.isAtEnd : scanner.isAtEnd = left.isEmpty := by
  rw [Scanner.isAtEnd, stands.src, stands.curr]
  cases left <;> simp

omit stands in
theorem At.skip {taken : List UInt8} (stands : scanner.At done (taken ++ left)) :
    (scanner.skip taken.length).At (done ++ taken) left :=
  ⟨stands.src.trans (List.append_assoc ..).symm, by
    rw [List.length_append, ← stands.curr]
    rfl⟩

omit stands in
theorem At.advance {byte : UInt8} (stands : scanner.At done (byte :: left)) :
    scanner.advance = some (byte, scanner.skip 1) := by
  have found : scanner.src[scanner.curr]? = some byte := stands.getElem? 0
  rw [Scanner.advance, found]
  rfl

omit stands in
/-- One byte further on. -/
theorem At.step {byte : UInt8} (stands : scanner.At done (byte :: left)) :
    (scanner.skip 1).At (done ++ [byte]) left :=
  @At.skip scanner done left [byte] stands

theorem At.matchByte (expected : Char) :
    scanner.matchByte expected =
      if left.head?.any (Char.ofUInt8 · == expected) then some (true, scanner.skip 1)
      else some (false, scanner) := by
  rw [Scanner.matchByte, stands.isAtEnd, stands.peek]
  cases left with
  | nil => rfl
  | cons byte left =>
    by_cases same : Char.ofUInt8 byte = expected
    · simp [same, stands.advance]
    · simp [same]

theorem At.pastWhile {p : UInt8 → Bool} (zero : p 0 = false) :
    scanner.pastWhile p = some (scanner.skip (left.takeWhile p).length) := by
  fun_induction Scanner.pastWhile p scanner generalizing done left with
  | case1 scanner more byte next advanced ih =>
    rw [stands.peek] at more
    cases left with
    | nil =>
      rw [List.head?_nil, Option.getD_none, zero] at more
      cases more
    | cons first left =>
      obtain ⟨rfl, rfl⟩ := Prod.mk.inj (Option.some.inj (advanced.symm.trans stands.advance))
      have goes : p byte = true := more
      rw [ih stands.step, List.takeWhile_cons_of_pos goes]
      simp [Scanner.skip, Nat.add_assoc, Nat.add_comm 1]
  | case2 scanner more ended =>
    rw [stands.peek] at more
    cases left with
    | nil =>
      rw [List.head?_nil, Option.getD_none, zero] at more
      cases more
    | cons first left => cases ended.symm.trans stands.advance
  | case3 scanner stops =>
    rw [stands.peek] at stops
    cases left with
    | nil => rfl
    | cons first left => simp_all [Scanner.skip]

theorem At.pastString :
    scanner.pastString =
      some ((scanner.skip (left.takeWhile isStringByte).length).lower
        (newlines ((left.takeWhile isStringByte).map Char.ofUInt8))) := by
  induction left generalizing scanner done with
  | nil =>
    rw [Scanner.pastString, stands.isAtEnd]
    rfl
  | cons byte left ih =>
    rw [Scanner.pastString, stands.isAtEnd, stands.peek]
    cases more : isStringByte byte with
    | false => simp [more, Scanner.skip, lower, newlines]
    | true =>
      have later := stands.step
      rw [if_pos (by simp [more]), List.takeWhile_cons_of_pos more, List.map_cons, newlines,
        List.count_cons, ← newlines]
      split
      · rename_i first next advanced
        obtain ⟨rfl, rfl⟩ := Prod.mk.inj (Option.some.inj (advanced.symm.trans stands.advance))
        split
        · rename_i newline
          have lowered : ((scanner.skip 1).lower 1).At (done ++ [first]) left :=
            ⟨later.src, later.curr⟩
          refine (ih lowered).trans ?_
          simp [Scanner.skip, lower, Nat.add_assoc, Nat.add_comm 1, newline]
        · rename_i other
          refine (ih later).trans ?_
          simp [Scanner.skip, lower, Nat.add_assoc, Nat.add_comm 1, other]
      · rename_i ended
        cases ended.symm.trans stands.advance

theorem At.lower (lines : Nat) : (scanner.lower lines).At done left := ⟨stands.src, stands.curr⟩

theorem At.pastComment :
    scanner.pastComment =
      scanner.skip (left.takeWhile fun byte => Char.ofUInt8 byte != '\n').length := by
  have rest : scanner.src.drop scanner.curr = left := by
    rw [stands.src, stands.curr, List.drop_left]
  have whole : scanner.src.length = scanner.curr + left.length := by
    rw [stands.src, stands.curr, List.length_append]
  have ends : (left.takeWhile fun byte => Char.ofUInt8 byte != '\n').length =
      left.findIdx (Char.ofUInt8 · == '\n') := by
    rw [List.takeWhile_eq_take_findIdx_not, List.length_take]
    simp [bne, List.findIdx_le_length]
  rw [Scanner.pastComment, rest, ends]
  cases place : left.findIdx? (Char.ofUInt8 · == '\n') with
  | none => simp [Scanner.skip, whole, List.findIdx?_eq_none_iff_findIdx_eq.mp place]
  | some index => simp [Scanner.skip, (List.findIdx?_eq_some_iff_findIdx_eq.mp place).2]

end At

/-! ### Where characters meet -/

section Boundaries

variable {scanner : Scanner} {before here rest : List Char}

theorem take_drop_encode (before here rest : List Char) :
    ((encode (before ++ here ++ rest)).take (encode (before ++ here)).length).drop
      (encode before).length = encode here := by
  rw [encode_append (before ++ here), List.take_left, encode_append, List.drop_left]

theorem isBoundary_encode (whole : scanner.src = encode (before ++ rest)) :
    scanner.isBoundary (encode before).length = true := by
  rw [isBoundary, whole, encode_append]
  cases rest with
  | nil => simp [encode]
  | cons c rest =>
    obtain ⟨lead, taken, encoded, first⟩ := lead_encode c
    have found : (encode before ++ encode (c :: rest))[(encode before).length]? = some lead := by
      simp [encode_cons, encoded]
    rw [found]
    simp [first]

theorem slice_encode {first last : Nat} (whole : scanner.src = encode (before ++ here ++ rest))
    (starts : first = (encode before).length) (ends : last = first + (encode here).length) :
    scanner.slice? first last = some (String.ofList here) := by
  have sum : last = (encode (before ++ here)).length := by
    rw [ends, starts, encode_append, List.length_append]
  have left : scanner.isBoundary first = true :=
    starts ▸ isBoundary_encode (whole.trans (congrArg encode (List.append_assoc ..)))
  have right : scanner.isBoundary last = true := sum ▸ isBoundary_encode whole
  rw [slice?, if_pos ⟨ends ▸ Nat.le_add_right _ _, left, right⟩, whole, sum, starts,
    take_drop_encode, ← bytes_ofList, decode_eq_ok_iff.mpr rfl]
  rfl

end Boundaries

end Scanner

/-! ### Wide characters

Every test of a character is of characters of one byte. -/

section Wide

variable {c : Char} (wide : 128 ≤ c.toNat)
include wide

theorem not_le_of_wide {bound : Char} (ascii : bound.toNat < 128) : decide (c ≤ bound) = false :=
  decide_eq_false fun below =>
    absurd (UInt32.le_iff_toNat_le.mp below) (Nat.not_le.mpr (ascii.trans_le wide))

theorem ne_of_wide {other : Char} (ascii : other.toNat < 128) : c ≠ other := by
  rintro rfl
  omega

theorem isDigit_wide : isDigit c = false := by
  have above : decide (c ≤ '9') = false := not_le_of_wide wide (by decide)
  simp [isDigit, above]

theorem isLetter_wide : isLetter c = false := by
  have lower : decide (c ≤ 'z') = false := not_le_of_wide wide (by decide)
  have upper : decide (c ≤ 'Z') = false := not_le_of_wide wide (by decide)
  have underscore : (c == '_') = false := beq_eq_false_iff_ne.mpr (ne_of_wide wide (by decide))
  rw [isLetter, lower, upper, underscore]
  simp

theorem isBlank_wide : isBlank c = false := by
  have others {other : Char} (ascii : other.toNat < 128) : (c == other) = false :=
    beq_eq_false_iff_ne.mpr (ne_of_wide wide ascii)
  simp [isBlank, others]

theorem single_wide : single? c = none := by
  unfold single?
  split <;> first
    | rfl
    | exact absurd wide (by decide)

theorem withEqual_wide : withEqual? c = none := by
  unfold withEqual?
  split <;> first
    | rfl
    | exact absurd wide (by decide)

end Wide

theorem reads_word : Reads Scanner.isWordByte isWordChar :=
  reads_ofUInt8 fun c d wide wide' => by
    simp [isWordChar, isLetter_wide, isDigit_wide, wide, wide']

theorem reads_digit : Reads Scanner.isDigitByte isDigit :=
  reads_ofUInt8 fun c d wide wide' => by rw [isDigit_wide wide, isDigit_wide wide']

theorem reads_is {other : Char} (ascii : other.toNat < 128) :
    Reads (fun byte => Char.ofUInt8 byte == other) (· == other) :=
  reads_ofUInt8 (q := (· == other)) fun c d wide wide' => by
    rw [beq_eq_false_iff_ne.mpr (ne_of_wide wide ascii),
      beq_eq_false_iff_ne.mpr (ne_of_wide wide' ascii)]

theorem reads_other {other : Char} (ascii : other.toNat < 128) :
    Reads (fun byte => Char.ofUInt8 byte != other) (· != other) :=
  (reads_is ascii).not

/-! ### Numbers in two parts -/

/-- The point and the digits after it, if there are any. -/
def fractionOf : List Char → List Char
  | '.' :: rest => if (rest.takeWhile isDigit).isEmpty then [] else '.' :: rest.takeWhile isDigit
  | _ => []

theorem fractionOf_whole {text : List Char} (whole : ∀ rest, text ≠ '.' :: rest) :
    fractionOf text = [] := by
  unfold fractionOf
  split
  · exact absurd rfl (whole _)
  · rfl

theorem fractionOf_prefix (text : List Char) : fractionOf text <+: text := by
  unfold fractionOf
  split
  · split
    · exact List.nil_prefix
    · exact (List.prefix_cons_inj _).mpr (List.takeWhile_prefix _)
  · exact List.nil_prefix

theorem cutNumber_parts (text : List Char) :
    (cutNumber text).1 =
      .token (.number (Decimal.ofText
          (text.takeWhile isDigit ++ fractionOf (text.dropWhile isDigit))))
        (text.takeWhile isDigit ++ fractionOf (text.dropWhile isDigit)) := by
  have all : ∀ c ∈ text.takeWhile isDigit, isDigit c := fun c => List.mem_takeWhile_imp
  by_cases point : ∃ rest, text.dropWhile isDigit = '.' :: rest
  · obtain ⟨rest, point⟩ := point
    rw [cutNumber_point point, point, fractionOf]
    split
    · rw [List.append_nil, ofText_whole all]
    · rw [ofText_decimal all]
  · have whole : ∀ rest, text.dropWhile isDigit ≠ '.' :: rest := fun rest same => point ⟨rest, same⟩
    rw [cutNumber_whole whole, fractionOf_whole whole, List.append_nil, ofText_whole all]

/-! ### One piece -/

theorem cutSymbol_single {c : Char} (single : withEqual? c = none) (rest : List Char) :
    cutSymbol c rest =
      match single? c with
      | some symbol => (.token (.symbol symbol) [c], rest)
      | none => (.stray c, rest) := by
  unfold cutSymbol
  split
  · rename_i found
    cases single.symm.trans found
  · rfl

theorem cut_wide {c : Char} (wide : 128 ≤ c.toNat) (rest : List Char) : (cut c rest).1 = .stray c := by
  have others {other : Char} (ascii : other.toNat < 128) : c ≠ other := ne_of_wide wide ascii
  rw [cut, isBlank_wide wide, isLetter_wide wide, isDigit_wide wide, if_neg Bool.false_ne_true,
    if_neg Bool.false_ne_true, if_neg Bool.false_ne_true, if_neg (others (by decide)),
    if_neg fun both => others (by decide) both.1, cutSymbol_single (withEqual_wide wide),
    single_wide wide]

/-- The kind of the token that a piece is. -/
def Piece.kind? : Piece → Option Kind
  | token kind _ => some kind
  | blank _ | stray _ | unclosed _ => none

def Piece.complaint? : Piece → Option LexComplaint
  | stray c => some (.unexpected c)
  | unclosed _ => some .unterminated
  | blank _ | token .. => none

theorem Piece.item_eq (piece : Piece) (line : Nat) :
    piece.item? line =
      match piece.complaint?, piece.kind? with
      | some complaint, _ => some (.complaint line complaint)
      | none, some kind => some (.token ⟨kind, String.ofList piece.text, line⟩)
      | none, none => none := by
  cases piece <;> rfl

namespace Scanner

/-- After a piece. -/
def past (piece : Piece) (scanner : Scanner) : Scanner :=
  { scanner with
    curr := scanner.start + (encode piece.text).length
    line := piece.lineAfter scanner.line
    pending := piece.kind? }

/-- The first byte of a piece has been read, and it is a character. -/
structure Begun (scanner : Scanner) (before : List Char) (c : Char) (rest : List Char) : Prop where
  src : scanner.src = encode (before ++ c :: rest)
  start : scanner.start = (encode before).length
  curr : scanner.curr = scanner.start + 1
  ascii : c.toNat < 128
  pending : scanner.pending = none

section Begun

variable {scanner : Scanner} {before rest : List Char} {c : Char}
  (begun : scanner.Begun before c rest)
include begun

theorem Begun.stands : scanner.At (encode (before ++ [c])) (encode rest) := by
  constructor
  · rw [begun.src, ← encode_append, List.append_assoc]
    rfl
  · rw [begun.curr, begun.start, encode_append, encode_cons, encode_ascii begun.ascii]
    simp [encode]

theorem Begun.skip (inside : List Char) :
    (scanner.skip (encode inside).length).curr = scanner.start + (encode (c :: inside)).length := by
  rw [encode_cons, encode_ascii begun.ascii, List.length_append]
  change scanner.curr + _ = _
  rw [begun.curr, List.length_singleton, Nat.add_assoc]

omit begun in
theorem kindOf_encode (word : List Char) : kindOf (encode word) = wordKind word := by
  have same (keyword : Keyword) :
      (bytes keyword.text == encode word) = (keyword.text == String.ofList word) := by
    rw [← bytes_ofList]
    exact Bool.eq_iff_iff.mpr (by simp [bytes_inj])
  have found : Keyword.all.find? (fun keyword => bytes keyword.text == encode word) =
      Keyword.ofText? (String.ofList word) :=
    congrArg Keyword.all.find? (funext same)
  unfold kindOf wordKind
  exact found ▸ rfl

theorem Begun.parseIdentifier (word : isWordChar c) :
    scanner.parseIdentifier = some (none, scanner.past (cutWord (c :: rest)).1) := by
  have looped := begun.stands.pastWhile (p := isWordByte) (by decide)
  rw [takeWhile_encode reads_word] at looped
  have curr := begun.skip (rest.takeWhile isWordChar)
  have piece : (cutWord (c :: rest)).1 =
      .token (wordKind (c :: rest.takeWhile isWordChar)) (c :: rest.takeWhile isWordChar) := by
    simp [cutWord, word]
  have cut := take_drop_encode before (c :: rest.takeWhile isWordChar) (rest.dropWhile isWordChar)
  rw [List.append_assoc, List.cons_append, List.takeWhile_append_dropWhile, ← begun.src,
    encode_append, List.length_append, ← begun.start, ← curr] at cut
  have kind := (congrArg kindOf cut).trans (kindOf_encode _)
  rw [Scanner.parseIdentifier, looped]
  refine congrArg (fun next => some (none, next)) (Scanner.ext rfl rfl ?_ ?_ ?_)
  · rw [past, piece]
    exact curr
  · exact (lineAfter_word scanner.line (c :: rest)).symm
  · rw [past, piece]
    exact congrArg some kind

omit begun in
theorem pastFraction_eq {done : List UInt8} {left : List Char}
    (stands : scanner.At done (encode left)) :
    scanner.pastFraction = some (scanner.skip (encode (fractionOf left)).length) := by
  have point := stands.peek_is (p := (Char.ofUInt8 · == '.')) (by decide)
  rw [(reads_is (by decide)).head] at point
  have next := stands.peekNext_is (p := isDigitByte) (by decide)
  have none : scanner.skip (encode []).length = scanner := rfl
  by_cases dot : ∃ rest, left = '.' :: rest
  · obtain ⟨rest, rfl⟩ := dot
    have split : encode ('.' :: rest) = '.'.toUInt8 :: encode rest := by
      rw [encode_cons, encode_ascii (by decide), List.singleton_append]
    rw [split] at next stands
    rw [List.tail_cons, reads_digit.head] at next
    have head : rest.head?.any isDigit = !(rest.takeWhile isDigit).isEmpty := by
      cases rest with
      | nil => rfl
      | cons c rest => cases first : isDigit c <;> simp [first]
    rw [fractionOf, pastFraction, beq_iff_eq.mp point, next, head]
    cases (rest.takeWhile isDigit).isEmpty with
    | true => rfl
    | false =>
      have looped := stands.step.pastWhile (p := isDigitByte) (by decide)
      rw [takeWhile_encode reads_digit, skip_skip] at looped
      rw [if_pos ⟨rfl, rfl⟩, At.advance stands]
      refine looped.trans (congrArg (fun count => some (scanner.skip count)) ?_)
      rw [if_neg Bool.false_ne_true, encode_cons, encode_ascii (by decide), List.length_append]
      rfl
  · have absent : left.head?.any (· == '.') = false := by
      cases left with
      | nil => rfl
      | cons c rest => exact beq_eq_false_iff_ne.mpr fun same => dot ⟨rest, same ▸ rfl⟩
    rw [absent, beq_eq_false_iff_ne] at point
    rw [pastFraction, if_neg fun both => point both.1, fractionOf_whole, none]
    exact fun rest same => dot ⟨rest, same⟩

theorem Begun.parseNumber (digit : isDigit c) :
    scanner.parseNumber = some (none, scanner.past (cutNumber (c :: rest)).1) := by
  have looped := begun.stands.pastWhile (p := isDigitByte) (by decide)
  rw [takeWhile_encode reads_digit] at looped
  have stands : scanner.At (encode (before ++ [c]))
      (encode (rest.takeWhile isDigit) ++ encode (rest.dropWhile isDigit)) := by
    rw [← encode_append, List.takeWhile_append_dropWhile]
    exact begun.stands
  have pointed := pastFraction_eq (At.skip stands)
  rw [skip_skip, ← List.length_append, ← encode_append] at pointed
  let number := c :: (rest.takeWhile isDigit ++ fractionOf (rest.dropWhile isDigit))
  have parts : (cutNumber (c :: rest)).1 = .token (.number (Decimal.ofText number)) number := by
    rw [cutNumber_parts, List.takeWhile_cons_of_pos digit, List.dropWhile_cons_of_pos digit]
    rfl
  have curr := begun.skip (rest.takeWhile isDigit ++ fractionOf (rest.dropWhile isDigit))
  obtain ⟨more, left⟩ := fractionOf_prefix (rest.dropWhile isDigit)
  have whole : scanner.src = encode (before ++ number ++ more) := by
    rw [begun.src, List.append_assoc, List.cons_append, List.append_assoc, left,
      List.takeWhile_append_dropWhile]
  have sliced := slice_encode whole begun.start curr
  have lines := lineAfter_number scanner.line (c :: rest)
  rw [Scanner.parseNumber, looped]
  change (Scanner.pastFraction _).bind _ = _
  rw [pointed]
  change (scanner.slice? scanner.start _).bind _ = _
  rw [sliced]
  refine congrArg (fun next => some (none, next)) (Scanner.ext rfl rfl ?_ lines.symm ?_)
  · rw [past, parts]
    exact curr
  · rw [past, parts]
    dsimp only [Piece.kind?]
    rw [String.toList_ofList]

theorem Begun.parseString (quote : c = '"') :
    scanner.parseString =
      some ((cutString rest).1.complaint?, scanner.past (cutString rest).1) := by
  subst quote
  let inside := rest.takeWhile (· != '"')
  have reads : Reads isStringByte (· != '"') := reads_other (by decide)
  have looped := begun.stands.pastString
  rw [takeWhile_encode reads, newlines_encode] at looped
  have stands : scanner.At (encode (before ++ ['"']))
      (encode inside ++ encode (rest.dropWhile (· != '"'))) := by
    rw [← encode_append, List.takeWhile_append_dropWhile]
    exact begun.stands
  have after := (At.skip stands).lower (newlines inside)
  rw [Scanner.parseString, looped]
  dsimp only [Option.bind_eq_bind, Option.bind_some]
  rw [after.isAtEnd]
  unfold cutString
  cases left : rest.dropWhile (· != '"') with
  | nil =>
    refine congrArg (fun next => some (some _, next)) (Scanner.ext rfl rfl ?_ ?_ ?_)
    · exact begun.skip inside
    · exact (lineThrough_eq ..).symm
    · exact begun.pending
  | cons quote more =>
    have closing : quote = '"' := by simpa using first_dropWhile left
    subst closing
    rw [left, encode_cons, encode_ascii (by decide)] at after
    have advanced := At.advance after
    have whole : scanner.src = encode (before ++ ['"'] ++ inside ++ '"' :: more) := by
      rw [begun.src, ← left, List.append_assoc, List.takeWhile_append_dropWhile, List.append_assoc]
      rfl
    have sliced : scanner.slice? (scanner.start + 1) (scanner.curr + (encode inside).length) =
        some (String.ofList inside) :=
      slice_encode whole (begun.curr.symm.trans begun.stands.curr) (by rw [begun.curr])
    have more_left : ¬(encode ('"' :: more)).isEmpty := by
      rw [encode_cons, encode_ascii (by decide)]
      simp
    rw [if_neg more_left, advanced]
    change (scanner.slice? (scanner.start + 1) (scanner.curr + (encode inside).length)).bind _ = _
    rw [sliced]
    refine congrArg (fun next => some (none, next)) (Scanner.ext rfl rfl ?_ ?_ rfl)
    · change scanner.curr + (encode inside).length + 1 =
        scanner.start + (encode ('"' :: inside ++ ['"'])).length
      have one : (encode ['"']).length = 1 := by rw [encode_cons, encode_ascii (by decide)]; rfl
      rw [encode_append, List.length_append, ← Nat.add_assoc, ← begun.skip inside, one]
      rfl
    · change scanner.line + newlines inside = lineThrough scanner.line (String.ofList inside).toList
      rw [lineThrough_eq, String.toList_ofList]

theorem Begun.blank {line : Nat} (same : line = (Piece.blank [c]).lineAfter scanner.line) :
    { scanner with line := line } = scanner.past (.blank [c]) :=
  Scanner.ext rfl rfl (begun.skip []) same begun.pending

theorem Begun.found (symbol : Symbol) :
    scanner.found symbol = some (none, scanner.past (.token (.symbol symbol) [c])) := by
  refine congrArg (fun next => some (none, next)) (Scanner.ext rfl rfl ?_ rfl rfl)
  exact begun.skip []

/-- A second character that is of one byte too. -/
theorem Begun.matchByte {second : Char} (ascii : second.toNat < 128) :
    scanner.matchByte second =
      if rest.head? = some second then some (true, scanner.skip 1) else some (false, scanner) := by
  rw [begun.stands.matchByte, (reads_is ascii).head]
  cases rest <;> simp

theorem Begun.operator {both alone : Symbol} (first : withEqual? c = some both)
    (single : single? c = some alone) :
    scanner.operator both alone =
      some ((cutSymbol c rest).1.complaint?, scanner.past (cutSymbol c rest).1) := by
  rw [Scanner.operator, begun.matchByte (by decide)]
  split
  · rename_i equal
    obtain ⟨tail, rfl⟩ := List.head?_eq_some_iff.mp equal
    have piece : (cutSymbol c ('=' :: tail)).1 = .token (.symbol both) [c, '='] := by
      simp [cutSymbol, first]
    rw [piece]
    refine congrArg (fun next => some (none, next)) (Scanner.ext rfl rfl ?_ rfl rfl)
    exact begun.skip ['=']
  · rename_i other
    have alone_ : ∀ tail, rest ≠ '=' :: tail := fun tail same => other (by rw [same]; rfl)
    rw [cutSymbol_alone alone_, single]
    exact begun.found alone

theorem Begun.slash (first : c = '/') :
    scanner.slash = some ((cut c rest).1.complaint?, scanner.past (cut c rest).1) := by
  subst first
  rw [Scanner.slash, begun.matchByte (by decide)]
  split
  · rename_i second
    obtain ⟨tail, rfl⟩ := List.head?_eq_some_iff.mp second
    have piece : (cut '/' ('/' :: tail)).1 = .blank ('/' :: '/' :: tail.takeWhile (· != '\n')) := rfl
    have slashes : encode ('/' :: tail) = ['/'.toUInt8] ++ encode tail := by
      rw [encode_cons, encode_ascii (by decide)]
    have stands := begun.stands
    rw [slashes] at stands
    have ended := (At.skip stands).pastComment
    rw [takeWhile_encode (reads_other (by decide)), List.length_singleton,
      skip_skip] at ended
    rw [piece]
    refine congrArg (fun next => some (none, next)) (ended.trans (Scanner.ext rfl rfl ?_ rfl ?_))
    · have curr := begun.skip ('/' :: tail.takeWhile (· != '\n'))
      rw [encode_cons, encode_ascii (by decide), List.length_append] at curr
      exact curr
    · exact begun.pending
  · rename_i other
    have piece : (cut '/' rest).1 = .token (.symbol .slash) ['/'] := by
      have single : (cut '/' rest) = cutSymbol '/' rest := by simp [cut, other, isBlank, isLetter, isDigit]
      rw [single]
      rfl
    rw [piece]
    exact begun.found .slash

end Begun

section Scan

variable {scanner : Scanner} {before rest : List Char} {c : Char}

/-- Between two pieces. -/
structure Between (scanner : Scanner) (before rest : List Char) : Prop where
  src : scanner.src = encode (before ++ rest)
  start : scanner.start = (encode before).length
  curr : scanner.curr = scanner.start
  pending : scanner.pending = none

theorem Between.at (between : scanner.Between before rest) :
    scanner.At (encode before) (encode rest) :=
  ⟨by rw [between.src, encode_append], between.curr.trans between.start⟩

/-- The first character is read as one, if it is of one byte. -/
theorem Between.begun (between : scanner.Between before (c :: rest)) (ascii : c.toNat < 128) :
    scanner.advance = some (c.toUInt8, scanner.skip 1) ∧ (scanner.skip 1).Begun before c rest := by
  have stands := between.at
  rw [encode_cons, encode_ascii ascii] at stands
  exact ⟨At.advance stands, between.src, between.start, congrArg (· + 1) between.curr, ascii,
    between.pending⟩

/-- A character of more than one byte is passed as a whole. -/
theorem Between.skipStray (between : scanner.Between before (c :: rest)) {next : Scanner}
    (same : next.text = scanner.text) (start : next.start = scanner.start)
    (line : next.line = scanner.line) (pending : next.pending = none) :
    next.skipStray = some (some (.unexpected c), scanner.past (.stray c)) := by
  have whole : next.src = encode (before ++ (c :: rest) ++ []) := by
    rw [Scanner.src, same, ← Scanner.src, between.src, List.append_nil]
  have ends : next.src.length = next.start + (encode (c :: rest)).length := by
    rw [whole, List.append_nil, encode_append, List.length_append, start, between.start]
  have sliced := slice_encode whole (start.trans between.start) ends
  have size : (encode [c]).length = c.utf8Size := by
    rw [encode_cons, List.length_append, String.length_utf8EncodeChar]
    rfl
  rw [Scanner.skipStray, sliced]
  dsimp only [Option.bind_eq_bind, Option.bind_some]
  rw [String.toList_ofList]
  refine congrArg (fun next => some (_, next)) (Scanner.ext same start ?_ line ?_)
  · exact (congrArg₂ (· + ·) start size.symm)
  · exact pending

theorem Between.scan_wide (between : scanner.Between before (c :: rest)) (wide : 128 ≤ c.toNat) :
    scanner.scanToken = some ((cut c rest).1.complaint?, scanner.past (cut c rest).1) := by
  obtain ⟨lead, taken, encoded, _, high⟩ := encode_wide wide
  have wide' : 128 ≤ (Char.ofUInt8 lead).toNat := high lead List.mem_cons_self
  have stands := between.at
  rw [encode_cons, encoded] at stands
  have others {other : Char} (ascii : other.toNat < 128) : Char.ofUInt8 lead ≠ other :=
    ne_of_wide wide' ascii
  have gap : ¬(Char.ofUInt8 lead = ' ' ∨ Char.ofUInt8 lead = '\r' ∨ Char.ofUInt8 lead = '\t') := by
    rintro (same | same | same) <;> exact others (by decide) same
  rw [cut_wide wide, Scanner.scanToken, At.advance stands]
  dsimp only [Option.bind_eq_bind, Option.bind_some]
  rw [if_neg (others (by decide)), if_neg gap, isLetter_wide wide', isDigit_wide wide',
    if_neg Bool.false_ne_true, if_neg Bool.false_ne_true, if_neg (others (by decide)),
    if_neg (others (by decide)), withEqual_wide wide', single_wide wide']
  exact between.skipStray rfl rfl rfl between.pending

theorem Between.scan_ascii (between : scanner.Between before (c :: rest)) (ascii : c.toNat < 128) :
    scanner.scanToken = some ((cut c rest).1.complaint?, scanner.past (cut c rest).1) := by
  obtain ⟨advanced, begun⟩ := between.begun ascii
  rw [Scanner.scanToken, advanced]
  dsimp only [Option.bind_eq_bind, Option.bind_some]
  rw [ofUInt8_toUInt8 ascii]
  change _ = some (_, (scanner.skip 1).past _)
  by_cases newline : c = '\n'
  · subst newline
    exact congrArg (fun next => some (none, next)) (begun.blank rfl)
  rw [if_neg newline]
  by_cases gap : c = ' ' ∨ c = '\r' ∨ c = '\t'
  · have blank : isBlank c := by simpa [isBlank, newline, or_assoc] using gap
    have quiet : newlines [c] = 0 := List.count_eq_zero.mpr (by simpa using Ne.symm newline)
    have same := lineAfter_blank scanner.line quiet
    rw [if_pos gap, cut, if_pos blank]
    exact congrArg (fun next => some (none, next)) (begun.blank same.symm)
  have blank : ¬isBlank c := by simpa [isBlank, newline, or_assoc] using gap
  rw [if_neg gap]
  by_cases slash : c = '/'
  · have letter : ¬isLetter c := by rw [slash]; decide
    have digit : ¬isDigit c := by rw [slash]; decide
    have quote : c ≠ '"' := by rw [slash]; decide
    rw [if_neg letter, if_neg digit, if_neg quote, if_pos slash, begun.slash slash]
  rw [cut, if_neg blank]
  by_cases letter : isLetter c
  · rw [if_pos letter, if_pos letter, begun.parseIdentifier (by simp [isWordChar, letter])]
    rfl
  rw [if_neg letter, if_neg letter]
  by_cases digit : isDigit c
  · obtain ⟨value, spelled, same⟩ := cutNumber_kind (c :: rest)
    rw [if_pos digit, if_pos digit, begun.parseNumber digit, same]
    rfl
  rw [if_neg digit, if_neg digit]
  by_cases quote : c = '"'
  · rw [if_pos quote, if_pos quote, begun.parseString quote]
  rw [if_neg quote, if_neg quote, if_neg slash, if_neg fun both => slash both.1]
  cases equal : withEqual? c with
  | some both =>
    obtain ⟨alone, single⟩ := single?_of_withEqual equal
    rw [single]
    exact begun.operator equal single
  | none =>
    rw [cutSymbol_single equal]
    cases single : single? c with
    | some alone => exact begun.found alone
    | none => exact between.skipStray rfl rfl rfl between.pending

/-- One piece is read, whatever bytes it has. -/
theorem Between.scanToken (between : scanner.Between before (c :: rest)) :
    scanner.scanToken = some ((cut c rest).1.complaint?, scanner.past (cut c rest).1) :=
  (Nat.lt_or_ge c.toNat 128).elim between.scan_ascii between.scan_wide

end Scan

/-! ### Calls -/

/-- A scanner and a cursor that have as much left to give. -/
inductive Tracks (scanner : Scanner) : Cursor → Prop
  | within {before rest : List Char} : scanner.src = encode (before ++ rest) →
    scanner.curr = (encode before).length → scanner.Tracks ⟨rest, scanner.line, false⟩
  | ended {rest : List Char} {line : Nat} : scanner.src.length < scanner.curr →
    scanner.Tracks ⟨rest, line, true⟩

section Calls

variable {scanner : Scanner}

theorem next_tracks_within (rest : List Char) {before : List Char} {scanner : Scanner}
    (src : scanner.src = encode (before ++ rest)) (curr : scanner.curr = (encode before).length) :
    ∃ after, scanner.next = some (some (Cursor.nextFrom scanner.line rest).1, after) ∧
      after.Tracks (Cursor.nextFrom scanner.line rest).2 := by
  match rest with
  | [] =>
    have whole : scanner.curr = scanner.src.length := by rw [curr, src, List.append_nil]
    refine ⟨{ scanner with curr := scanner.curr + 1 }, ?_, ?_⟩
    · rw [next, if_pos whole.le, if_pos whole, Cursor.nextFrom]
    · rw [Cursor.nextFrom]
      exact .ended (whole ▸ Nat.lt_succ_self _)
  | c :: rest =>
    have between : { scanner with start := scanner.curr, pending := none }.Between before
        (c :: rest) := ⟨src, curr, rfl, rfl⟩
    have inside : scanner.curr < scanner.src.length := by
      have size := c.utf8Size_pos
      rw [curr, src, encode_append, encode_cons, List.length_append, List.length_append,
        String.length_utf8EncodeChar]
      omega
    have scanned := between.scanToken
    have whole : scanner.src = encode (before ++ (cut c rest).1.text ++ (cut c rest).2) := by
      rw [src, List.append_assoc, text_cut]
    have further : scanner.curr + (encode (cut c rest).1.text).length =
        (encode (before ++ (cut c rest).1.text)).length := by
      rw [curr, encode_append, List.length_append]
    let passed := past (cut c rest).1 { scanner with start := scanner.curr, pending := none }
    have sliced : passed.slice? passed.start passed.curr = some (String.ofList (cut c rest).1.text) :=
      slice_encode whole curr rfl
    rw [next, if_pos inside.le, if_neg inside.ne, Cursor.nextFrom, Piece.item_eq]
    split
    · rename_i stopped
      cases stopped.symm.trans scanned
    · rename_i complaint after given
      obtain ⟨complained, rfl⟩ := Prod.mk.inj (Option.some.inj (scanned.symm.trans given))
      rw [complained]
      exact ⟨_, rfl, .within whole further⟩
    · rename_i after given
      obtain ⟨quiet, rfl⟩ := Prod.mk.inj (Option.some.inj (scanned.symm.trans given))
      rw [quiet, show passed.pending = (cut c rest).1.kind? from rfl]
      cases (cut c rest).1.kind? with
      | some kind =>
        change ∃ after, (passed.slice? passed.start passed.curr).bind _ = _ ∧ _
        rw [sliced]
        exact ⟨_, rfl, .within whole further⟩
      | none =>
        have shorter := length_cut c rest
        exact @next_tracks_within (cut c rest).2 _ passed whole further
termination_by rest.length
decreasing_by
  simp only [List.length_cons]
  omega

theorem next_tracks {cursor : Cursor} (tracks : scanner.Tracks cursor) :
    ∃ after, scanner.next = some (cursor.call.1, after) ∧ after.Tracks cursor.call.2 := by
  cases tracks with
  | within src curr => exact next_tracks_within _ src curr
  | ended beyond =>
    refine ⟨scanner, ?_, .ended beyond⟩
    rw [next, if_neg beyond.not_ge]
    rfl

theorem calls_tracks (count : Nat) {cursor : Cursor} (tracks : scanner.Tracks cursor) :
    scanner.calls count = some (cursor.calls count) := by
  induction count generalizing scanner cursor with
  | zero =>
    obtain ⟨after, given, _⟩ := next_tracks tracks
    rw [calls, given]
    rfl
  | succ count ih =>
    obtain ⟨after, given, later⟩ := next_tracks tracks
    rw [calls, given]
    exact ih later

end Calls

/-- No call stops for good, and all of them give what the text is cut into. -/
theorem calls_eq (source : String) (count : Nat) :
    (fresh source).calls count = some ((Cursor.start source).calls count) := by
  have src : (fresh source).src = encode ([] ++ source.toList) := bytes_eq source
  exact calls_tracks count (.within src rfl)

/-- What is not a character of one byte is passed at once, and the line of a string that goes on is
that of its closing quote. -/
example : ((fresh "é\n\"ß\n\"").calls 0, (fresh "é\n\"ß\n\"").calls 1) =
    (some (some (.complaint 1 (.unexpected 'é'))),
      some (some (.token ⟨.string "ß\n", "\"ß\n\"", 3⟩))) := by
  rw [calls_eq, calls_eq]
  cbv

end Scanner
end Lox.Source
