import Lox.Proofs.Longest
import Lox.Proofs.Whole
import Lox.Machine.Run
import Lox.Tree.Statement

/-! Whole numbers as text. A number below the limit is written as its own numeral, so its digits are
one token again, and what that token stands for is the number without its sign. -/

namespace Lox

namespace Decimal

/-- The digits of a number as one writes it: no digit too many in front. -/
structure IsNumeral (n : Nat) (text : List Char) : Prop where
  some_digit : text ≠ []
  all : ∀ c ∈ text, Source.isDigit c
  value : ofDigits text = n
  plain : text.head? = some '0' → text = ['0']

theorem head_toDigits {n : Nat} (zero : (Nat.toDigits 10 n).head? = some '0') : n = 0 := by
  induction n using Nat.strongRecOn with
  | ind n ih =>
    by_cases short : n < 10
    · rw [Nat.toDigits_of_lt_base short] at zero
      simpa using zero
    · have fewer : n / 10 < n := Nat.div_lt_self (by omega) (by decide)
      rw [Nat.toDigits_of_base_le (by decide) (by omega),
        List.head?_append_of_ne_nil _ Nat.toDigits_ne_nil] at zero
      have := ih _ fewer zero
      omega

theorem isNumeral_digitsOf (n : Nat) : IsNumeral n (digitsOf n) where
  some_digit := Nat.toDigits_ne_nil
  all c member := by
    have digit := Nat.isDigit_of_mem_toDigits (by decide) (by decide) member
    simpa [Source.isDigit, Char.isDigit, Char.le_def] using digit
  value := by
    have back := Nat.ofDigitChars_ten_toDigits (n := n)
    rwa [Nat.ofDigitChars_eq_foldl] at back
  plain zero := by
    rw [head_toDigits zero]
    rfl

theorem digitChar_digitValue {c : Char} (digit : Source.isDigit c) :
    digitValue c < 10 ∧ (digitValue c).digitChar = c := by
  simp only [Source.isDigit, Bool.and_eq_true, decide_eq_true_eq, Char.le_def,
    UInt32.le_iff_toNat_le] at digit
  obtain ⟨low, high⟩ : 48 ≤ c.toNat ∧ c.toNat ≤ 57 := digit
  have same : Char.ofNat c.toNat = c := Char.ofNat_toNat c
  have zero : '0'.toNat = 48 := rfl
  rw [digitValue, zero]
  generalize c.toNat = code at *
  subst same
  interval_cases code <;> exact ⟨by decide, rfl⟩

theorem ofDigits_concat (digits : List Char) (c : Char) :
    ofDigits (digits ++ [c]) = 10 * ofDigits digits + digitValue c := by
  simp [ofDigits]

/-- There is one numeral for each number. -/
theorem IsNumeral.eq_digitsOf {n : Nat} {text : List Char} (numeral : IsNumeral n text) :
    text = digitsOf n := by
  induction text using List.reverseRecOn generalizing n with
  | nil => exact absurd rfl numeral.some_digit
  | append_singleton digits c ih =>
    obtain ⟨below, back⟩ := digitChar_digitValue (numeral.all c (by simp))
    have value := numeral.value
    rw [ofDigits_concat] at value
    by_cases single : digits = []
    · subst single
      obtain rfl : digitValue c = n := by simpa [ofDigits] using value
      rw [digitsOf, Nat.toDigits_of_lt_base below, back]
      rfl
    · have longer : digits ++ [c] ≠ ['0'] := by
        intro whole
        have short := congrArg List.length whole
        exact single (List.eq_nil_of_length_eq_zero (by simpa using short))
      have head (zero : digits.head? = some '0') : False :=
        longer (numeral.plain (by rw [List.head?_append_of_ne_nil _ single, zero]))
      have shorter : IsNumeral (ofDigits digits) digits :=
        { some_digit := single
          all d member := numeral.all d (List.mem_append_left _ member)
          value := rfl
          plain zero := (head zero).elim }
      have front := ih shorter
      have some_value : ofDigits digits ≠ 0 := by
        intro zero
        rw [zero] at front
        exact head (by rw [front]; rfl)
      have last : n % 10 = digitValue c := by omega
      have others : n / 10 = ofDigits digits := by omega
      rw [digitsOf, Nat.toDigits_of_base_le (by decide) (by omega), last, others, back]
      exact congrArg (· ++ [c]) front
end Decimal

namespace Source

theorem not_blank {c : Char} (digit : isDigit c) : ¬ isBlank c := by
  simp only [isBlank, Bool.or_eq_true, beq_iff_eq]
  rintro (((rfl | rfl) | rfl) | rfl) <;> exact absurd digit (by decide)

theorem not_letter {c : Char} (digit : isDigit c) : ¬ isLetter c := by
  simp only [isDigit, Bool.and_eq_true, decide_eq_true_eq] at digit
  simp only [isLetter, Bool.or_eq_true, Bool.and_eq_true, decide_eq_true_eq, beq_iff_eq]
  rintro ((letter | letter) | rfl)
  · exact absurd (letter.1.trans digit.2) (by decide)
  · exact absurd (letter.1.trans digit.2) (by decide)
  · exact absurd digit (by decide)

theorem itemsFrom_digits {digits more : List Char} (some_digit : digits ≠ [])
    (all : ∀ c ∈ digits, isDigit c)
    (ends : ∀ c rest, more = c :: rest → isDigit c = false ∧ c ≠ '.') (line : Nat) :
    itemsFrom line (digits ++ more) =
      .token ⟨.number (Decimal.read digits []), String.ofList digits, line⟩ ::
        itemsFrom line more := by
  obtain ⟨c, rest, rfl⟩ := List.exists_cons_of_ne_nil some_digit
  have first : isDigit c := all c (List.mem_cons_self ..)
  have stops : ∀ d others, more = d :: others → isDigit d = false :=
    fun d others same => (ends d others same).1
  obtain ⟨taken, left⟩ := takeWhile_stop all stops
  have pointless : ∀ others, (c :: rest ++ more).dropWhile isDigit ≠ '.' :: others := by
    intro others same
    rw [left] at same
    exact (ends _ _ same).2 rfl
  have single : newlines (c :: rest) = 0 := by
    rw [newlines, List.count_eq_zero]
    intro member
    exact absurd (all _ member) (by decide)
  have cut_number : cut c (rest ++ more) = cutNumber (c :: rest ++ more) := by
    rw [cut, if_neg (not_blank first), if_neg (not_letter first), if_pos first]
    rfl
  rw [List.cons_append, itemsFrom_cons, cut_number, cutNumber_whole pointless, taken, left]
  simp only [Piece.text, single, Nat.add_zero]
  rfl

theorem itemsFrom_minus (more : List Char) (line : Nat) :
    itemsFrom line ('-' :: more) = .token ⟨.symbol .minus, "-", line⟩ :: itemsFrom line more :=
  itemsFrom_cons line '-' more

end Source

open Source

/-! ### Reading the text of a number back -/

def numberText (negative : Bool) (digits : List Char) : List Char :=
  if negative then '-' :: digits else digits

/-- The tokens of a number: a sign in front of one that has one. -/
def numberTokens (negative : Bool) (digits : List Char) (size : Float) : List Token :=
  (if negative then [⟨.symbol .minus, "-", 1⟩] else []) ++
    [⟨.number size, String.ofList digits, 1⟩]

def numberExpr (negative : Bool) (size : Float) : Expr :=
  if negative then .unary ⟨.symbol .minus, "-", 1⟩ (.literal (.number size))
  else .literal (.number size)

theorem itemsFrom_number {digits more : List Char} (some_digit : digits ≠ [])
    (all : ∀ c ∈ digits, isDigit c)
    (ends : ∀ c rest, more = c :: rest → isDigit c = false ∧ c ≠ '.') (negative : Bool) :
    itemsFrom 1 (numberText negative digits ++ more) =
      (numberTokens negative digits (Decimal.read digits [])).map .token ++ itemsFrom 1 more := by
  have unsigned := itemsFrom_digits some_digit all ends 1
  cases negative with
  | false => exact unsigned
  | true => exact (itemsFrom_minus (digits ++ more) 1).trans (congrArg _ unsigned)

/-- Neither the end of a text nor a semicolon goes on with a number. -/
theorem scan_number {digits : List Char} (some_digit : digits ≠ [])
    (all : ∀ c ∈ digits, isDigit c) (negative : Bool) :
    scan (String.ofList (numberText negative digits)) =
      (numberTokens negative digits (Decimal.read digits []) ++ [Token.eof 1]).map .token := by
  have items := itemsFrom_number some_digit all
    (fun c rest (none : [] = c :: rest) => by cases none) negative
  rw [List.append_nil, itemsFrom_nil] at items
  rw [scan, Cursor.start, String.toList_ofList, List.map_append]
  exact items

theorem scan_statement {digits : List Char} (some_digit : digits ≠ [])
    (all : ∀ c ∈ digits, isDigit c) (negative : Bool) :
    scan (String.ofList (numberText negative digits) ++ ";") =
      (numberTokens negative digits (Decimal.read digits []) ++
        [⟨.symbol .semicolon, ";", 1⟩, Token.eof 1]).map .token := by
  have items := itemsFrom_number some_digit all
    (fun c rest (same : [';'] = c :: rest) => by cases same; decide) negative
  have semicolon : itemsFrom 1 [';'] =
      [.token ⟨.symbol .semicolon, ";", 1⟩, .token (.eof 1)] :=
    (itemsFrom_cons 1 ';' []).trans (congrArg _ (itemsFrom_nil 1))
  rw [semicolon] at items
  rw [scan, Cursor.start, String.toList_append, String.toList_ofList, List.map_append]
  exact items

theorem tokens_map (words : List Token) : tokens (words.map .token) = words := by
  simp [tokens, List.filterMap_map]

theorem parse_number (negative : Bool) (digits : List Char) (size : Float) (id : Nat) :
    Tree.parse
        (numberTokens negative digits size ++ [⟨.symbol .semicolon, ";", 1⟩, Token.eof 1]) id =
      ⟨.ok [.expression (numberExpr negative size)], id⟩ := by
  cases negative <;> rfl

theorem run_number (negative : Bool) (size : Float) (state : Machine.State) :
    Machine.run 3 (Machine.evaluating (numberExpr negative size) state) =
      some (.done (.number (if negative then -size else size)), state) := by
  cases negative <;> rfl

open Decimal

/-- Whole numbers are written as they are and read back as they were. -/
theorem whole_printed (bits : UInt64) (whole : Int) (small : whole.natAbs < 10 ^ 15)
    (given : value? (Float.ofBits bits) = some (whole : ℚ)) :
    let x := Float.ofBits bits
    let negative := decide (whole < 0 ∨ bits = negativeZero)
    x.toModel.toInt64.toInt = whole ∧
    ∃ (digits : List Char) (size : Float) (e : Expr),
      IsNumeral whole.natAbs digits ∧
      size.toBits.toNat = bits.toNat % 2 ^ 63 ∧
      (Value.number x).text = String.ofList (numberText negative digits) ∧
      scan (Value.number x).text = (numberTokens negative digits size ++ [Token.eof 1]).map .token ∧
      (∀ firstId, Tree.parse (tokens (scan ((Value.number x).text ++ ";"))) firstId =
        ⟨.ok [.expression e], firstId⟩) ∧
      ∀ state, ∃ steps, Machine.run steps (Machine.evaluating e state) =
        some (.done (.number x), state) := by
  intro x negative
  have finite := isFinite_of_ofBits given
  have same : x.toBits = bits := toBits_ofBits finite
  obtain ⟨sign, mantissa, exponent, found⟩ := decodes (isFinite_of_value given)
  have signs : sign = negative := by
    rw [Bool.eq_iff_iff, found.negative_iff given, decide_eq_true_iff, same]
  have written : (Value.number x).text =
      String.ofList (numberText negative (digitsOf whole.natAbs)) := by
    rw [← signs]
    exact text_whole found given small
  have numeral := isNumeral_digitsOf whole.natAbs
  have size : Decimal.read (digitsOf whole.natAbs) [] = x.abs := by
    rw [← nearest_whole given, Decimal.read, List.append_nil, numeral.value]
    rfl
  refine ⟨toInt64_whole given small, digitsOf whole.natAbs, x.abs, numberExpr negative x.abs,
    numeral, ?_, written, ?_, ?_, ?_⟩
  · rw [toNat_toBits_abs (same ▸ finite), same]
  · rw [written, scan_number numeral.some_digit numeral.all, size]
  · intro firstId
    rw [written, scan_statement numeral.some_digit numeral.all, size, tokens_map, parse_number]
  · intro state
    refine ⟨3, ?_⟩
    rw [run_number, ← signs, found.signed_abs]

theorem value_least :
    value? (Float.ofBits 0xC30C6BF52633FFF8) = some (-999999999999999 : Int) := by
  have unpacked : (Float.ofBits 0xC30C6BF52633FFF8).toModel.unpack =
      .finite .negative 7999999999999992 (-3) (by decide) := by rfl
  rw [value?, unpacked]
  norm_num [Float.Model.UnpackedFloat.Sign.apply]

/-- The least of these numbers, and the zero that is not the usual one. -/
theorem whole_printed_of_least :
    (Value.number (Float.ofBits 0xC30C6BF52633FFF8)).text = "-999999999999999" ∧
    (Value.number (Float.ofBits negativeZero)).text = "-0" := by
  obtain ⟨-, digits, _, _, numeral, -, written, -⟩ :=
    whole_printed 0xC30C6BF52633FFF8 (-999999999999999) (by decide) value_least
  obtain ⟨-, digits', _, _, numeral', -, written', -⟩ :=
    whole_printed negativeZero 0 (by decide) rfl
  rw [written, written', numeral.eq_digitsOf, numeral'.eq_digitsOf]
  exact ⟨rfl, rfl⟩

end Lox
