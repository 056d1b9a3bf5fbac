import Mathlib.Data.List.Forall2
import Mathlib.Data.List.TakeWhile
import Lox.Text.Utf8

/-! Decoding undoes encoding. Bytes are read as a text just where they are the bytes of that text, so
those that are refused are the bytes of none. -/

namespace Lox.Text.Utf8

/-- The bytes a text is written with. -/
def bytes (text : String) : List UInt8 := text.toUTF8.data.toList

/-- Followers that a leading byte can have. -/
abbrev Follows (ranges : List Range) (taken : List UInt8) : Prop :=
  List.Forall₂ (fun range byte => range.holds byte = true) ranges taken

/-- The number that is made of the bits so far and of those of the followers. -/
def gather (bits : Nat) (taken : List UInt8) : Nat :=
  taken.foldl (fun bits byte => bits * 64 + byte.toNat % 64) bits

theorem bytes_eq (text : String) : bytes text = text.toList.flatMap String.utf8EncodeChar := by
  unfold bytes
  rw [String.toUTF8_eq_toByteArray, ← String.utf8Encode_toList]
  exact List.toList_data_toByteArray

/-! ### One character -/

theorem holds_iff {range : Range} {byte : UInt8} :
    range.holds byte = true ↔
      range.least.toNat ≤ byte.toNat ∧ byte.toNat ≤ range.greatest.toNat := by
  simp [Range.holds, UInt8.le_iff_toNat_le]

theorem followers?_eq (lead : UInt8) :
    followers? lead =
      if lead.toNat < 128 then some []
      else if lead.toNat < 194 then none
      else if lead.toNat < 224 then some [tail]
      else if lead.toNat = 224 then some [⟨0xA0, 0xBF⟩, tail]
      else if lead.toNat = 237 then some [⟨0x80, 0x9F⟩, tail]
      else if lead.toNat < 240 then some [tail, tail]
      else if lead.toNat = 240 then some [⟨0x90, 0xBF⟩, tail, tail]
      else if lead.toNat < 244 then some [tail, tail, tail]
      else if lead.toNat = 244 then some [⟨0x80, 0x8F⟩, tail, tail]
      else none := by
  simp only [followers?, UInt8.lt_iff_toNat_lt, ← UInt8.toNat_inj]
  rfl

theorem leadBits_eq (lead : UInt8) :
    leadBits lead =
      if lead.toNat < 128 then lead.toNat
      else if lead.toNat < 224 then lead.toNat % 32
      else if lead.toNat < 240 then lead.toNat % 16
      else lead.toNat % 8 := by
  simp only [leadBits, UInt8.lt_iff_toNat_lt]
  rfl

theorem ofNat_eq {n : Nat} {byte : UInt8} (same : n = byte.toNat) : UInt8.ofNat n = byte :=
  same ▸ UInt8.ofNat_toNat

theorem toNat_ofNat {n : Nat} (valid : n.isValidChar) : (Char.ofNat n).toNat = n := by
  unfold Char.ofNat
  rw [dif_pos valid]
  rfl

theorem encode_ofNat {n : Nat} (valid : n.isValidChar) :
    String.utf8EncodeChar (Char.ofNat n) =
      if n ≤ 127 then [.ofNat n]
      else if n ≤ 2047 then [.ofNat (n / 64 % 32 + 192), .ofNat (n % 64 + 128)]
      else if n ≤ 65535 then
        [.ofNat (n / 4096 % 16 + 224), .ofNat (n / 64 % 64 + 128), .ofNat (n % 64 + 128)]
      else
        [.ofNat (n / 262144 % 8 + 240), .ofNat (n / 4096 % 64 + 128), .ofNat (n / 64 % 64 + 128),
          .ofNat (n % 64 + 128)] := by
  have value : (Char.ofNat n).val.toNat = n := toNat_ofNat valid
  rw [String.utf8EncodeChar, value]

section Sizes

variable {n : Nat} {first second third fourth : UInt8}

theorem encode_one (lead : n = first.toNat) (small : n ≤ 127) :
    String.utf8EncodeChar (Char.ofNat n) = [first] := by
  rw [encode_ofNat (.inl (by omega)), if_pos small, ofNat_eq lead]

theorem encode_two (lead : n / 64 + 192 = first.toNat) (next : n % 64 + 128 = second.toNat)
    (large : 127 < n) (small : n ≤ 2047) :
    String.utf8EncodeChar (Char.ofNat n) = [first, second] := by
  have quotient : n / 64 % 32 = n / 64 := by omega
  rw [encode_ofNat (.inl (by omega)), if_neg (by omega), if_pos small, quotient, ofNat_eq lead,
    ofNat_eq next]

theorem encode_three (lead : n / 4096 + 224 = first.toNat)
    (next : n / 64 % 64 + 128 = second.toNat) (last : n % 64 + 128 = third.toNat)
    (valid : n.isValidChar) (large : 2047 < n) (small : n ≤ 65535) :
    String.utf8EncodeChar (Char.ofNat n) = [first, second, third] := by
  have quotient : n / 4096 % 16 = n / 4096 := by omega
  rw [encode_ofNat valid, if_neg (by omega), if_neg (by omega), if_pos small, quotient,
    ofNat_eq lead, ofNat_eq next, ofNat_eq last]

theorem encode_four (lead : n / 262144 + 240 = first.toNat)
    (next : n / 4096 % 64 + 128 = second.toNat) (later : n / 64 % 64 + 128 = third.toNat)
    (last : n % 64 + 128 = fourth.toNat) (large : 65535 < n) (small : n < 1114112) :
    String.utf8EncodeChar (Char.ofNat n) = [first, second, third, fourth] := by
  have quotient : n / 262144 % 8 = n / 262144 := by omega
  rw [encode_ofNat (.inr ⟨by omega, small⟩), if_neg (by omega), if_neg (by omega),
    if_neg (by omega), quotient, ofNat_eq lead, ofNat_eq next, ofNat_eq later, ofNat_eq last]

/-! What is gathered behind a leading byte of each size. -/

theorem gather_two (above : 194 ≤ first.toNat) (below : first.toNat < 224)
    (next : tail.holds second = true) :
    String.utf8EncodeChar (Char.ofNat (gather (leadBits first) [second])) = [first, second] := by
  obtain ⟨least, greatest⟩ : 128 ≤ second.toNat ∧ second.toNat ≤ 191 := holds_iff.mp next
  have bits : leadBits first = first.toNat - 192 := by
    rw [leadBits_eq, if_neg (by omega), if_pos below]
    omega
  have number : gather (leadBits first) [second] =
      (first.toNat - 192) * 64 + (second.toNat - 128) := by
    simp only [gather, List.foldl_cons, List.foldl_nil, bits]
    omega
  rw [number]
  apply encode_two <;> omega

theorem gather_three (above : 224 ≤ first.toNat) (below : first.toNat < 240)
    (least : 128 ≤ second.toNat) (greatest : second.toNat ≤ 191)
    (short : first.toNat = 224 → 160 ≤ second.toNat)
    (surrogate : first.toNat = 237 → second.toNat ≤ 159) (last : tail.holds third = true) :
    String.utf8EncodeChar (Char.ofNat (gather (leadBits first) [second, third])) =
      [first, second, third] := by
  obtain ⟨least', greatest'⟩ : 128 ≤ third.toNat ∧ third.toNat ≤ 191 := holds_iff.mp last
  have bits : leadBits first = first.toNat - 224 := by
    rw [leadBits_eq, if_neg (by omega), if_neg (by omega), if_pos below]
    omega
  have number : gather (leadBits first) [second, third] =
      (first.toNat - 224) * 4096 + (second.toNat - 128) * 64 + (third.toNat - 128) := by
    simp only [gather, List.foldl_cons, List.foldl_nil, bits]
    omega
  have valid : ((first.toNat - 224) * 4096 + (second.toNat - 128) * 64 +
      (third.toNat - 128)).isValidChar := by
    unfold Nat.isValidChar
    omega
  rw [number]
  apply encode_three _ _ _ valid <;> omega

theorem gather_four (above : 240 ≤ first.toNat) (below : first.toNat ≤ 244)
    (least : 128 ≤ second.toNat) (greatest : second.toNat ≤ 191)
    (short : first.toNat = 240 → 144 ≤ second.toNat)
    (beyond : first.toNat = 244 → second.toNat ≤ 143)
    (later : tail.holds third = true) (last : tail.holds fourth = true) :
    String.utf8EncodeChar (Char.ofNat (gather (leadBits first) [second, third, fourth])) =
      [first, second, third, fourth] := by
  obtain ⟨least', greatest'⟩ : 128 ≤ third.toNat ∧ third.toNat ≤ 191 := holds_iff.mp later
  obtain ⟨least'', greatest''⟩ : 128 ≤ fourth.toNat ∧ fourth.toNat ≤ 191 := holds_iff.mp last
  have bits : leadBits first = first.toNat - 240 := by
    rw [leadBits_eq, if_neg (by omega), if_neg (by omega), if_neg (by omega)]
    omega
  have number : gather (leadBits first) [second, third, fourth] =
      (first.toNat - 240) * 262144 + (second.toNat - 128) * 4096 + (third.toNat - 128) * 64 +
        (fourth.toNat - 128) := by
    simp only [gather, List.foldl_cons, List.foldl_nil, bits]
    omega
  rw [number]
  apply encode_four <;> omega

end Sizes

/-- What is gathered from sound bytes is a character, and they are its bytes. -/
theorem encode_gather {lead : UInt8} {ranges : List Range} {taken : List UInt8}
    (owed : followers? lead = some ranges) (follows : Follows ranges taken) :
    String.utf8EncodeChar (Char.ofNat (gather (leadBits lead) taken)) = lead :: taken := by
  rw [followers?_eq] at owed
  split_ifs at owed <;> cases owed
  · cases follows
    have bits : leadBits lead = lead.toNat := by rw [leadBits_eq, if_pos ‹_›]
    exact encode_one bits (by change leadBits lead ≤ 127; omega)
  · obtain _ | ⟨next, _ | _⟩ := follows
    exact gather_two (by omega) ‹_› next
  · obtain _ | ⟨next, _ | ⟨last, _ | _⟩⟩ := follows
    obtain ⟨least, greatest⟩ : 160 ≤ _ ∧ _ ≤ 191 := holds_iff.mp next
    apply gather_three _ _ _ _ _ _ last <;> omega
  · obtain _ | ⟨next, _ | ⟨last, _ | _⟩⟩ := follows
    obtain ⟨least, greatest⟩ : 128 ≤ _ ∧ _ ≤ 159 := holds_iff.mp next
    apply gather_three _ _ _ _ _ _ last <;> omega
  · obtain _ | ⟨next, _ | ⟨last, _ | _⟩⟩ := follows
    obtain ⟨least, greatest⟩ : 128 ≤ _ ∧ _ ≤ 191 := holds_iff.mp next
    apply gather_three _ _ _ _ _ _ last <;> omega
  · obtain _ | ⟨next, _ | ⟨later, _ | ⟨last, _ | _⟩⟩⟩ := follows
    obtain ⟨least, greatest⟩ : 144 ≤ _ ∧ _ ≤ 191 := holds_iff.mp next
    apply gather_four _ _ _ _ _ _ later last <;> omega
  · obtain _ | ⟨next, _ | ⟨later, _ | ⟨last, _ | _⟩⟩⟩ := follows
    obtain ⟨least, greatest⟩ : 128 ≤ _ ∧ _ ≤ 191 := holds_iff.mp next
    apply gather_four _ _ _ _ _ _ later last <;> omega
  · obtain _ | ⟨next, _ | ⟨later, _ | ⟨last, _ | _⟩⟩⟩ := follows
    obtain ⟨least, greatest⟩ : 128 ≤ _ ∧ _ ≤ 143 := holds_iff.mp next
    apply gather_four _ _ _ _ _ _ later last <;> omega

/-- A leading byte and its followers are sound, and make a number. -/
def Makes (first : UInt8) (taken : List UInt8) (n : Nat) : Prop :=
  ∃ ranges, followers? first = some ranges ∧ Follows ranges taken ∧
    gather (leadBits first) taken = n

section Sizes

variable {n : Nat} {first second third fourth : UInt8}

theorem tail_holds (last : n % 64 + 128 = second.toNat) : tail.holds second = true := by
  have inside : 128 ≤ second.toNat ∧ second.toNat ≤ 191 := by omega
  exact holds_iff.mpr inside

theorem makes_one (lead : n = first.toNat) (small : n ≤ 127) : Makes first [] n := by
  refine ⟨[], ?_, .nil, ?_⟩
  · rw [followers?_eq, if_pos (by omega)]
  · rw [gather, List.foldl_nil, leadBits_eq, if_pos (by omega), lead]

theorem makes_two (lead : n / 64 + 192 = first.toNat) (next : n % 64 + 128 = second.toNat)
    (large : 127 < n) (small : n ≤ 2047) : Makes first [second] n := by
  refine ⟨[tail], ?_, .cons (tail_holds next) .nil, ?_⟩
  · rw [followers?_eq, if_neg (by omega), if_neg (by omega), if_pos (by omega)]
  · simp only [gather, List.foldl_cons, List.foldl_nil]
    rw [leadBits_eq, if_neg (by omega), if_pos (by omega)]
    omega

theorem makes_three (lead : n / 4096 + 224 = first.toNat)
    (next : n / 64 % 64 + 128 = second.toNat) (last : n % 64 + 128 = third.toNat)
    (valid : n < 55296 ∨ 57343 < n) (large : 2047 < n) (small : n ≤ 65535) :
    Makes first [second, third] n := by
  have owed : ∃ range, followers? first = some [range, tail] ∧ range.least.toNat ≤ second.toNat ∧
      second.toNat ≤ range.greatest.toNat := by
    rw [followers?_eq]
    split_ifs <;> first
      | omega
      | (refine ⟨_, rfl, ?_⟩; simp only [tail, UInt8.reduceToNat]; omega)
  obtain ⟨range, owed, inside⟩ := owed
  refine ⟨_, owed, .cons (holds_iff.mpr inside) (.cons (tail_holds last) .nil), ?_⟩
  simp only [gather, List.foldl_cons, List.foldl_nil]
  rw [leadBits_eq, if_neg (by omega), if_neg (by omega), if_pos (by omega)]
  omega

theorem makes_four (lead : n / 262144 + 240 = first.toNat)
    (next : n / 4096 % 64 + 128 = second.toNat) (later : n / 64 % 64 + 128 = third.toNat)
    (last : n % 64 + 128 = fourth.toNat) (large : 65535 < n) (small : n < 1114112) :
    Makes first [second, third, fourth] n := by
  have owed : ∃ range, followers? first = some [range, tail, tail] ∧
      range.least.toNat ≤ second.toNat ∧ second.toNat ≤ range.greatest.toNat := by
    rw [followers?_eq]
    split_ifs <;> first
      | omega
      | (refine ⟨_, rfl, ?_⟩; simp only [tail, UInt8.reduceToNat]; omega)
  obtain ⟨range, owed, inside⟩ := owed
  refine ⟨_, owed,
    .cons (holds_iff.mpr inside) (.cons (tail_holds later) (.cons (tail_holds last) .nil)), ?_⟩
  simp only [gather, List.foldl_cons, List.foldl_nil]
  rw [leadBits_eq, if_neg (by omega), if_neg (by omega), if_neg (by omega)]
  omega

end Sizes

theorem toNat_byte {n : Nat} (small : n < 256) : n = (UInt8.ofNat n).toNat :=
  (UInt8.toNat_ofNat_of_lt small).symm

/-- The bytes of a character are sound, and they make the character. -/
theorem makes_encode (c : Char) :
    ∃ lead taken, String.utf8EncodeChar c = lead :: taken ∧ Makes lead taken c.toNat := by
  have valid : c.toNat < 55296 ∨ 57343 < c.toNat ∧ c.toNat < 1114112 := c.valid
  have encoded := encode_ofNat valid
  rw [Char.ofNat_toNat] at encoded
  rw [encoded]
  generalize c.toNat = n at valid
  split_ifs
  · exact ⟨_, _, rfl, makes_one (toNat_byte (by omega)) (by omega)⟩
  · refine ⟨_, _, rfl, makes_two ?_ (toNat_byte (by omega)) (by omega) (by omega)⟩
    rw [← toNat_byte (by omega)]
    omega
  · refine ⟨_, _, rfl, makes_three ?_ (toNat_byte (by omega)) (toNat_byte (by omega)) (by omega)
      (by omega) (by omega)⟩
    rw [← toNat_byte (by omega)]
    omega
  · refine ⟨_, _, rfl, makes_four ?_ (toNat_byte (by omega)) (toNat_byte (by omega))
      (toNat_byte (by omega)) (by omega) (by omega)⟩
    rw [← toNat_byte (by omega)]
    omega

/-! ### Texts -/

/-- Sound followers are read up to the last of them. -/
theorem decodeFrom_followers {begun : Partial} {taken : List UInt8}
    (follows : Follows (begun.expected :: begun.later) taken) (index : Nat) (text : List Char)
    (rest : List UInt8) :
    decodeFrom index text (some begun) (taken ++ rest) =
      decodeFrom (index + taken.length) (Char.ofNat (gather begun.bits taken) :: text) none rest := by
  obtain ⟨start, seen, bits, expected, later⟩ := begun
  induction later generalizing index seen bits expected taken with
  | nil =>
    cases follows with
    | cons holds none =>
      cases none
      simp only [List.cons_append, List.nil_append, decodeFrom, holds, if_true]
      rfl
  | cons next later ih =>
    cases follows with
    | cons holds more =>
      simp only [List.cons_append, decodeFrom, holds, if_true]
      rw [ih _ _ _ _ more, List.length_cons, Nat.add_assoc, Nat.add_comm 1]
      rfl

/-- Where followers are read, they were sound. -/
theorem follows_of_decodeFrom {begun : Partial} {index : Nat} {text found : List Char}
    {later : List UInt8} (decoded : decodeFrom index text (some begun) later = .ok found) :
    ∃ taken rest, later = taken ++ rest ∧ Follows (begun.expected :: begun.later) taken := by
  obtain ⟨start, seen, bits, expected, owed⟩ := begun
  induction owed generalizing index seen bits expected later with
  | nil =>
    cases later with
    | nil => cases decoded
    | cons byte rest =>
      by_cases holds : expected.holds byte = true
      · exact ⟨[byte], rest, rfl, .cons holds .nil⟩
      · simp only [decodeFrom, holds] at decoded
        cases decoded
  | cons next owed ih =>
    cases later with
    | nil => cases decoded
    | cons byte rest =>
      by_cases holds : expected.holds byte = true
      · simp only [decodeFrom, holds, if_true] at decoded
        obtain ⟨taken, rest, same, follows⟩ := ih _ _ _ decoded
        exact ⟨byte :: taken, rest, congrArg (byte :: ·) same, .cons holds follows⟩
      · simp only [decodeFrom, holds] at decoded
        cases decoded

/-- A leading byte and its followers are read as one character. -/
theorem decodeFrom_lead {lead : UInt8} {ranges : List Range} {taken : List UInt8}
    (owed : followers? lead = some ranges) (follows : Follows ranges taken) (index : Nat)
    (text : List Char) (rest : List UInt8) :
    decodeFrom index text none (lead :: taken ++ rest) =
      decodeFrom (index + 1 + taken.length) (Char.ofNat (gather (leadBits lead) taken) :: text) none
        rest := by
  cases ranges with
  | nil =>
    cases follows
    simp only [List.cons_append, decodeFrom, owed]
    rfl
  | cons expected later =>
    simp only [List.cons_append, decodeFrom, owed]
    exact decodeFrom_followers follows _ _ _

theorem decodeFrom_encode (index : Nat) (text cs : List Char) :
    decodeFrom index text none (cs.flatMap String.utf8EncodeChar) = .ok (text.reverse ++ cs) := by
  induction cs generalizing index text with
  | nil => simp [decodeFrom]
  | cons c rest ih =>
    obtain ⟨lead, taken, same, ranges, owed, follows, gathered⟩ := makes_encode c
    rw [List.flatMap_cons, same, decodeFrom_lead owed follows, gathered, Char.ofNat_toNat, ih,
      List.reverse_cons, List.append_assoc, List.singleton_append]

theorem encode_of_decodeFrom (later : List UInt8) (index : Nat) (text found : List Char)
    (decoded : decodeFrom index text none later = .ok found) :
    ∃ cs, found = text.reverse ++ cs ∧ later = cs.flatMap String.utf8EncodeChar := by
  match later with
  | [] =>
    cases decoded
    exact ⟨[], (List.append_nil _).symm, rfl⟩
  | lead :: rest =>
    cases owed : followers? lead with
    | none =>
      simp only [decodeFrom, owed] at decoded
      cases decoded
    | some ranges =>
      have split : ∃ taken others, rest = taken ++ others ∧ Follows ranges taken := by
        cases ranges with
        | nil => exact ⟨[], rest, rfl, .nil⟩
        | cons expected owed' =>
          simp only [decodeFrom, owed] at decoded
          exact follows_of_decodeFrom decoded
      obtain ⟨taken, others, rfl, follows⟩ := split
      rw [← List.cons_append, decodeFrom_lead owed follows] at decoded
      have shorter : others.length < (lead :: (taken ++ others)).length := by
        simp only [List.length_cons, List.length_append]
        omega
      obtain ⟨cs, same, encoded⟩ := encode_of_decodeFrom others _ _ found decoded
      refine ⟨Char.ofNat (gather (leadBits lead) taken) :: cs, ?_, ?_⟩
      · rw [same, List.reverse_cons, List.append_assoc, List.singleton_append]
      · rw [List.flatMap_cons, encode_gather owed follows, encoded, List.cons_append]
termination_by later.length

/-- Bytes are read as a text just where they are its bytes. -/
theorem decode_eq_ok_iff {found : List UInt8} {text : String} :
    decode found = .ok text ↔ found = bytes text := by
  rw [bytes_eq]
  constructor
  · intro decoded
    unfold decode at decoded
    cases result : decodeFrom 0 [] none found with
    | error fault =>
      rw [result] at decoded
      cases decoded
    | ok cs =>
      rw [result] at decoded
      cases decoded
      obtain ⟨others, same, encoded⟩ := encode_of_decodeFrom found 0 [] cs result
      rw [encoded, String.toList_ofList, same]
      rfl
  · rintro rfl
    unfold decode
    rw [decodeFrom_encode]
    exact congrArg Except.ok String.ofList_toList

/-- Bytes are refused just where they are the bytes of no text. -/
theorem decode_eq_error_iff {found : List UInt8} :
    (∃ fault, decode found = .error fault) ↔ ¬∃ text, found = bytes text := by
  constructor
  · rintro ⟨fault, refused⟩ ⟨text, same⟩
    rw [decode_eq_ok_iff.mpr same] at refused
    cases refused
  · intro none
    cases result : decode found with
    | error fault => exact ⟨fault, rfl⟩
    | ok text => exact absurd ⟨text, decode_eq_ok_iff.mp result⟩ none

/-! ### Bytes of characters -/

/-- The bytes of characters. -/
def encode (cs : List Char) : List UInt8 := cs.flatMap String.utf8EncodeChar

theorem encode_cons (c : Char) (cs : List Char) :
    encode (c :: cs) = String.utf8EncodeChar c ++ encode cs := rfl

theorem encode_append (first second : List Char) :
    encode (first ++ second) = encode first ++ encode second := List.flatMap_append

theorem bytes_ofList (cs : List Char) : bytes (String.ofList cs) = encode cs := by
  rw [bytes_eq, String.toList_ofList, encode]

theorem bytes_inj {first second : String} : bytes first = bytes second ↔ first = second := by
  refine ⟨fun same => ?_, congrArg bytes⟩
  have read := decode_eq_ok_iff.mpr same
  rw [decode_eq_ok_iff.mpr rfl] at read
  exact Except.ok.inj read

theorem ofUInt8_toUInt8 {c : Char} (ascii : c.toNat < 128) : Char.ofUInt8 c.toUInt8 = c := by
  have small : c.val.toNat < 128 := ascii
  apply Char.ext
  apply UInt32.toNat_inj.mp
  change (c.val.toNat % 256) = c.val.toNat
  omega

theorem encode_ascii {c : Char} (ascii : c.toNat < 128) :
    String.utf8EncodeChar c = [c.toUInt8] := by
  have small : c.val.toNat < 128 := ascii
  apply String.utf8EncodeChar_eq_singleton
  rw [Char.utf8Size_eq_one_iff, UInt32.le_iff_toNat_le]
  exact Nat.le_of_lt_succ small

/-- A character of more than one byte starts as none continues, and none of its bytes is a character
by itself. -/
theorem encode_wide {c : Char} (wide : 128 ≤ c.toNat) :
    ∃ lead taken, String.utf8EncodeChar c = lead :: taken ∧ 192 ≤ lead.toNat ∧
      ∀ byte ∈ lead :: taken, 128 ≤ byte.toNat := by
  have valid : c.toNat < 55296 ∨ 57343 < c.toNat ∧ c.toNat < 1114112 := c.valid
  have encoded := encode_ofNat valid
  rw [Char.ofNat_toNat] at encoded
  rw [encoded, if_neg (by omega)]
  split_ifs
  all_goals
    refine ⟨_, _, rfl, ?_, ?_⟩
    · rw [← toNat_byte (by omega)]
      omega
    · simp only [List.forall_mem_cons, List.not_mem_nil, false_implies, implies_true, and_true]
      repeat rw [← toNat_byte (by omega)]
      omega

/-- No character starts with a byte that continues one. -/
theorem lead_encode (c : Char) :
    ∃ lead taken, String.utf8EncodeChar c = lead :: taken ∧ tail.holds lead = false := by
  rcases Nat.lt_or_ge c.toNat 128 with ascii | wide
  · refine ⟨_, _, encode_ascii ascii, Bool.eq_false_iff.mpr fun holds => ?_⟩
    have least : 128 ≤ c.toUInt8.toNat := (holds_iff.mp holds).1
    have number : c.toUInt8.toNat = c.toNat := congrArg Char.toNat (ofUInt8_toUInt8 ascii)
    omega
  · obtain ⟨lead, taken, encoded, high, _⟩ := encode_wide wide
    refine ⟨lead, taken, encoded, Bool.eq_false_iff.mpr fun holds => ?_⟩
    have greatest : lead.toNat ≤ 191 := (holds_iff.mp holds).2
    omega

/-- A test of bytes that says of each byte of a character what a test of characters says of it. -/
def Reads (p : UInt8 → Bool) (q : Char → Bool) : Prop :=
  ∀ c, ∀ byte ∈ String.utf8EncodeChar c, p byte = q c

theorem toNat_ofUInt8 (byte : UInt8) : (Char.ofUInt8 byte).toNat = byte.toNat := rfl

/-- Bytes are tested as the characters of one byte that they are, if the test does not tell wider ones
from one another. -/
theorem reads_ofUInt8 {q : Char → Bool}
    (even : ∀ c d : Char, 128 ≤ c.toNat → 128 ≤ d.toNat → q c = q d) :
    Reads (fun byte => q (Char.ofUInt8 byte)) q := by
  intro c byte member
  rcases Nat.lt_or_ge c.toNat 128 with ascii | wide
  · rw [encode_ascii ascii, List.mem_singleton] at member
    rw [member]
    exact congrArg q (ofUInt8_toUInt8 ascii)
  · obtain ⟨lead, taken, encoded, _, high⟩ := encode_wide wide
    rw [encoded] at member
    exact even _ _ (high byte member) wide

section Reads

variable {p : UInt8 → Bool} {q : Char → Bool} (reads : Reads p q)
include reads

theorem takeWhile_encode (cs : List Char) : (encode cs).takeWhile p = encode (cs.takeWhile q) := by
  induction cs with
  | nil => rfl
  | cons c rest ih =>
    rw [encode_cons]
    cases goes : q c with
    | true =>
      rw [List.takeWhile_append_of_pos fun byte member => (reads c byte member).trans goes, ih,
        List.takeWhile_cons_of_pos goes, encode_cons]
    | false =>
      obtain ⟨lead, taken, encoded, _⟩ := lead_encode c
      have stops : p lead = false := (reads c lead (by simp [encoded])).trans goes
      simp [encoded, stops, goes, encode]

theorem Reads.head (cs : List Char) : (encode cs).head?.any p = cs.head?.any q := by
  cases cs with
  | nil => rfl
  | cons c rest =>
    obtain ⟨lead, taken, encoded, _⟩ := lead_encode c
    have first := reads c lead (by rw [encoded]; exact List.mem_cons_self)
    rw [encode_cons, encoded]
    exact first

theorem Reads.not : Reads (fun byte => !p byte) (fun c => !q c) :=
  fun c byte member => congrArg _ (reads c byte member)

end Reads

end Lox.Text.Utf8
