import Mathlib
import Lox.Decimal.Layout

/-! A float as its 64 bits, as the sign, mantissa and exponent it decodes to, and as the number it
stands for. Whatever is not an infinity or no number at all is the same in all three. -/

namespace Lox.Decimal

open Float.Model Float.Model.UnpackedFloat

variable {word : UInt64}

/-! ### The fields of a word -/

theorem toNat_mantissa (word : UInt64) :
    (@unpackMantissa .binary64 word.toBitVec).toNat = word.toNat % 2 ^ 52 := by
  simp [unpackMantissa]

theorem toNat_exponent (word : UInt64) :
    (@unpackExponent .binary64 word.toBitVec).toNat = word.toNat / 2 ^ 52 % 2 ^ 11 := by
  simp [unpackExponent, Nat.shiftRight_eq_div_pow]

theorem toNat_sign (word : UInt64) :
    (@unpackSign .binary64 word.toBitVec).toNat = word.toNat / 2 ^ 63 := by
  simp [unpackSign, Nat.shiftRight_eq_div_pow]
  have := word.toNat_lt
  omega

theorem toNat_packComponents (sign : Sign) (exponent : BitVec 11) (mantissa : BitVec 52) :
    (packComponents .binary64 sign exponent mantissa).toNat =
      sign.toBitVec.toNat * 2 ^ 63 + exponent.toNat * 2 ^ 52 + mantissa.toNat := by
  unfold packComponents
  rw [BitVec.toNat_append, BitVec.toNat_append, ← Nat.shiftLeft_add_eq_or_of_lt mantissa.isLt,
    ← Nat.shiftLeft_add_eq_or_of_lt exponent.isLt]
  simp only [Nat.shiftLeft_eq]
  ring

theorem toNat_one_append (mantissa : BitVec 52) :
    (1#1 ++ mantissa).toNat = hiddenBit + mantissa.toNat := by
  rw [BitVec.toNat_append, ← Nat.shiftLeft_add_eq_or_of_lt mantissa.isLt]
  rfl

/-! ### Unpacking and packing -/

/-- The same number under another sign. -/
def withSign (sign : Sign) : UnpackedFloat → UnpackedFloat
  | .notANumber => .notANumber
  | .infinity _ => .infinity sign
  | .zero _ => .zero sign
  | .finite _ mantissa exponent positive => .finite sign mantissa exponent positive

theorem abs_eq (u : UnpackedFloat) : u.abs = withSign .positive u := by
  cases u <;> rfl

theorem unpack_eq (bits : BitVec 64) : unpack .binary64 bits =
    withSign (.ofBitVec (@unpackSign .binary64 bits)) (unpack .binary64 bits) := by
  unfold UnpackedFloat.unpack
  dsimp only
  split
  · split <;> rfl
  · split
    · split <;> rfl
    · rfl

theorem neg_unpack (bits : BitVec 64) : (unpack .binary64 bits).neg =
    withSign (-Sign.ofBitVec (@unpackSign .binary64 bits)) (unpack .binary64 bits) := by
  rw [unpack_eq]
  cases unpack .binary64 bits <;> rfl

theorem toBitVec_ofBitVec (bit : BitVec 1) : (Sign.ofBitVec bit).toBitVec = bit := by
  revert bit
  decide

theorem toBitVec_neg (sign : Sign) : (-sign).toBitVec.toNat = 1 - sign.toBitVec.toNat := by
  cases sign <;> rfl

theorem log2_mantissa (mantissa : BitVec 52) : (hiddenBit + mantissa.toNat).log2 = 52 := by
  have below := mantissa.isLt
  have some : hiddenBit + mantissa.toNat ≠ 0 := by simp [hiddenBit]
  rw [Nat.log2_eq_iff some]
  unfold hiddenBit
  omega

/-- What the bits of a number stand for. -/
theorem unpack_cases {bits : BitVec 64} {exponent : BitVec 11} {mantissa : BitVec 52}
    (field : @unpackExponent .binary64 bits = exponent)
    (fraction : @unpackMantissa .binary64 bits = mantissa) (finite : exponent ≠ -1#11) :
    let sign := Sign.ofBitVec (@unpackSign .binary64 bits)
    exponent = 0#11 ∧ mantissa = 0#52 ∧ unpack .binary64 bits = .zero sign ∨
    exponent = 0#11 ∧ (∃ positive, unpack .binary64 bits =
      .finite sign mantissa.toNat leastExponent positive) ∨
    exponent ≠ 0#11 ∧ ∃ positive, unpack .binary64 bits =
      .finite sign (hiddenBit + mantissa.toNat) (exponent.toNat + leastExponent - 1) positive := by
  intro sign
  have bias : Format.binary64.exponentBias = 1023 := rfl
  unfold UnpackedFloat.unpack
  simp only [field, fraction]
  rw [if_neg finite]
  by_cases least : exponent = 0#11
  · subst least
    by_cases none : mantissa = 0#52
    · subst none
      exact .inl ⟨rfl, rfl, rfl⟩
    · have positive : 0 < mantissa.toNat :=
        Nat.pos_of_ne_zero fun zero => none (BitVec.eq_of_toNat_eq zero)
      refine .inr (.inl ⟨rfl, positive, ?_⟩)
      rw [if_pos rfl, dif_neg none]
      rfl
  · refine .inr (.inr ⟨least, Nat.add_pos_left (by decide) _, ?_⟩)
    rw [if_neg least]
    simp only [toNat_one_append, bias, UnpackedFloat.finite.injEq, true_and, leastExponent, sign]
    omega

theorem pack_subnormal (sign : Sign) {mantissa : BitVec 52} (positive : 0 < mantissa.toNat) :
    pack .binary64 (.finite sign mantissa.toNat leastExponent positive) =
      packComponents .binary64 sign 0#11 mantissa := by
  have short : mantissa.toNat.log2 + 1 ≠ Format.binary64.mantissaBits := by
    have : mantissa.toNat.log2 < 52 := (Nat.log2_lt positive.ne').mpr mantissa.isLt
    change _ ≠ 53
    omega
  simp only [UnpackedFloat.pack]
  rw [if_neg (by decide), if_neg short, BitVec.ofNat_toNat, BitVec.setWidth_eq]

theorem pack_normal (sign : Sign) {exponent : BitVec 11} {mantissa : BitVec 52}
    (finite : exponent ≠ -1#11) (positive : 0 < hiddenBit + mantissa.toNat) :
    pack .binary64 (.finite sign (hiddenBit + mantissa.toNat)
      (exponent.toNat + leastExponent - 1) positive) =
      packComponents .binary64 sign exponent mantissa := by
  have bias : Format.binary64.exponentBias = 1023 := rfl
  have inside : exponent.toNat < 2047 := by
    have := exponent.isLt
    have : exponent.toNat ≠ 2047 := fun all => finite (BitVec.eq_of_toNat_eq all)
    omega
  have biased : (exponent.toNat + leastExponent - 1 + Format.binary64.exponentBias +
      Format.binary64.mantissaBitsWithoutImplicit).toNat = exponent.toNat := by
    simp only [bias, leastExponent]
    omega
  simp only [UnpackedFloat.pack, biased, log2_mantissa]
  rw [if_neg (by omega), if_pos (show 52 + 1 = Format.binary64.mantissaBits from rfl),
    BitVec.ofNat_toNat, BitVec.setWidth_eq]
  congr 1
  apply BitVec.eq_of_toNat_eq
  rw [BitVec.toNat_ofNat]
  exact (Nat.add_mod_left _ _).trans (Nat.mod_eq_of_lt mantissa.isLt)

/-- A float that is a number is packed from the parts it was unpacked into, but for the sign. -/
theorem pack_withSign {bits : BitVec 64} {exponent : BitVec 11} {mantissa : BitVec 52}
    (field : @unpackExponent .binary64 bits = exponent)
    (fraction : @unpackMantissa .binary64 bits = mantissa) (finite : exponent ≠ -1#11)
    (sign : Sign) :
    pack .binary64 (withSign sign (unpack .binary64 bits)) =
      packComponents .binary64 sign exponent mantissa := by
  obtain ⟨rfl, rfl, zero⟩ | ⟨rfl, positive, small⟩ | ⟨-, positive, large⟩ :=
    unpack_cases field fraction finite
  · rw [zero]
    rfl
  · rw [small]
    exact pack_subnormal sign positive
  · rw [large]
    exact pack_normal sign finite positive

/-! ### Floats -/

/-- The exponent is not that of an infinity. -/
def IsFinite (word : UInt64) : Prop := word.toNat / 2 ^ 52 % 2 ^ 11 ≠ 2047

theorem IsFinite.exponent (finite : IsFinite word) :
    @unpackExponent .binary64 word.toBitVec ≠ -1#11 := by
  intro same
  have all := congrArg BitVec.toNat same
  rw [toNat_exponent] at all
  exact finite all

theorem ext_toBits {x y : Float} (same : x.toBits = y.toBits) : x = y := by
  obtain ⟨⟨bits, valid⟩⟩ := x
  obtain ⟨⟨bits', valid'⟩⟩ := y
  obtain rfl : bits = bits' := same
  rfl

/-- The number with the bits of another one under some sign. -/
theorem toNat_packed (finite : IsFinite word) (sign : Sign) :
    (UInt64.ofBitVec (pack .binary64 (withSign sign (unpack .binary64 word.toBitVec)))).toNat =
      sign.toBitVec.toNat * 2 ^ 63 + word.toNat % 2 ^ 63 := by
  rw [pack_withSign rfl rfl finite.exponent]
  refine (toNat_packComponents sign _ _).trans ?_
  rw [toNat_exponent, toNat_mantissa]
  omega

theorem toBits_ofBits (finite : IsFinite word) : (Float.ofBits word).toBits = word := by
  apply UInt64.toNat_inj.mp
  have parts := toNat_packed finite (.ofBitVec (@unpackSign .binary64 word.toBitVec))
  rw [← unpack_eq, toBitVec_ofBitVec, toNat_sign] at parts
  refine Eq.trans parts ?_
  omega

theorem toNat_toBits_abs {x : Float} (finite : IsFinite x.toBits) :
    x.abs.toBits.toNat = x.toBits.toNat % 2 ^ 63 := by
  have parts := toNat_packed finite .positive
  rw [← abs_eq] at parts
  refine Eq.trans parts ?_
  exact Nat.zero_add _

theorem toNat_toBits_neg {x : Float} (finite : IsFinite x.toBits) :
    (-x).toBits.toNat = (1 - x.toBits.toNat / 2 ^ 63) * 2 ^ 63 + x.toBits.toNat % 2 ^ 63 := by
  have parts := toNat_packed finite
    (-.ofBitVec (@unpackSign .binary64 x.toBits.toBitVec))
  rw [← neg_unpack, toBitVec_neg, toBitVec_ofBitVec, toNat_sign] at parts
  exact parts

/-! ### Values -/

/-- The number that a float stands for, if it is one. -/
def value? (x : Float) : Option ℚ :=
  match x.toModel.unpack with
  | .zero _ => some 0
  | .finite sign mantissa exponent _ => some (sign.apply mantissa * 2 ^ exponent)
  | .infinity _ | .notANumber => none

def signOf (negative : Bool) : Sign := if negative then .negative else .positive

/-- A float that is a number, with its sign, its mantissa and its exponent. -/
structure Decodes (x : Float) (negative : Bool) (mantissa : Nat) (exponent : Int) : Prop where
  decoded : decode x = ⟨negative, .finite mantissa exponent⟩
  unpacked : mantissa = 0 ∧ x.toModel.unpack = .zero (signOf negative) ∨
    ∃ positive, x.toModel.unpack = .finite (signOf negative) mantissa exponent positive
  sign : x.toBits.toNat / 2 ^ 63 = if negative then 1 else 0
  bits : x.toBits.toNat % 2 ^ 63 = (exponent - leastExponent).toNat * hiddenBit + mantissa
  normal : hiddenBit ≤ mantissa ∨ exponent = leastExponent
  below : mantissa < 2 * hiddenBit
  least : leastExponent ≤ exponent
  finite : IsFinite x.toBits

theorem exponent_of_infinite (all : word.toNat / 2 ^ 52 % 2 ^ 11 = 2047) :
    @unpackExponent .binary64 word.toBitVec = -1#11 := by
  apply BitVec.eq_of_toNat_eq
  rw [toNat_exponent, all]
  rfl

theorem isFinite_of_value {x : Float} {value : ℚ} (given : value? x = some value) :
    IsFinite x.toBits := by
  intro all
  have field := exponent_of_infinite all
  have unpacked : x.toModel.unpack = unpack .binary64 x.toBits.toBitVec := rfl
  rw [value?, unpacked, UnpackedFloat.unpack] at given
  by_cases none : @unpackMantissa .binary64 x.toBits.toBitVec = 0#52
  · simp [field, none] at given
  · simp [field, none] at given

/-- Whatever is no number has no value. -/
theorem isFinite_of_ofBits {bits : UInt64} {value : ℚ}
    (given : value? (Float.ofBits bits) = some value) : IsFinite bits := by
  intro all
  have field := exponent_of_infinite all
  have packed : (Float.ofBits bits).toModel.unpack = UnpackedFloat.unpack .binary64
      (UnpackedFloat.pack .binary64 (UnpackedFloat.unpack .binary64 bits.toBitVec)) := rfl
  have unpacked : UnpackedFloat.unpack .binary64 bits.toBitVec = .notANumber ∨
      ∃ sign, UnpackedFloat.unpack .binary64 bits.toBitVec = .infinity sign := by
    unfold UnpackedFloat.unpack
    dsimp only
    rw [if_pos field]
    split
    · exact .inr ⟨_, rfl⟩
    · exact .inl rfl
  rw [value?, packed] at given
  obtain nan | ⟨sign, infinite⟩ := unpacked
  · rw [nan] at given
    cases given
  · rw [infinite] at given
    cases sign <;> cases given

theorem ofBitVec_eq (bit : BitVec 1) : Sign.ofBitVec bit = signOf (bit.toNat = 1) := by
  obtain rfl | rfl : bit = 0#1 ∨ bit = 1#1 := by
    revert bit
    decide
  · rfl
  · rfl

theorem ofBits_least {bits : Nat} (field : bits / hiddenBit % 2 ^ 11 = 0) :
    Decoded.ofBits bits =
      ⟨bits / 2 ^ 63 % 2 = 1, .finite (bits % hiddenBit) leastExponent⟩ := by
  simp only [Decoded.ofBits, field]
  rfl

theorem ofBits_normal {bits : Nat} (normal : bits / hiddenBit % 2 ^ 11 ≠ 0)
    (finite : bits / hiddenBit % 2 ^ 11 ≠ 2047) :
    Decoded.ofBits bits = ⟨bits / 2 ^ 63 % 2 = 1, .finite (hiddenBit + bits % hiddenBit)
      ((bits / hiddenBit % 2 ^ 11 : Nat) + leastExponent - 1)⟩ := by
  simp only [Decoded.ofBits, normal, finite, if_false]

/-- Every float that is a number has a sign, a mantissa and an exponent. -/
theorem decodes {x : Float} (finite : IsFinite x.toBits) :
    ∃ negative mantissa exponent, Decodes x negative mantissa exponent := by
  have unpacked : x.toModel.unpack = unpack .binary64 x.toBits.toBitVec := rfl
  have parts := @unpack_cases x.toBits.toBitVec _ _ rfl rfl finite.exponent
  have field := toNat_exponent x.toBits
  have fraction := toNat_mantissa x.toBits
  have bound := x.toBits.toNat_lt
  have bit : x.toBits.toNat / 2 ^ 63 % 2 = x.toBits.toNat / 2 ^ 63 := by omega
  have sign : x.toBits.toNat / 2 ^ 63 = if x.toBits.toNat / 2 ^ 63 = 1 then 1 else 0 := by
    split <;> omega
  rw [ofBitVec_eq, toNat_sign, ← unpacked] at parts
  generalize @unpackExponent .binary64 x.toBits.toBitVec = exponent at parts field
  generalize @unpackMantissa .binary64 x.toBits.toBitVec = mantissa at parts fraction
  have below : mantissa.toNat < 2 ^ 52 := mantissa.isLt
  have small (least : exponent = 0#11)
      (unpacked : mantissa.toNat = 0 ∧
          x.toModel.unpack = .zero (signOf (x.toBits.toNat / 2 ^ 63 = 1)) ∨
        ∃ positive, x.toModel.unpack = .finite (signOf (x.toBits.toNat / 2 ^ 63 = 1))
          mantissa.toNat leastExponent positive) :
      Decodes x (x.toBits.toNat / 2 ^ 63 = 1) mantissa.toNat leastExponent := by
    have none : x.toBits.toNat / hiddenBit % 2 ^ 11 = 0 := by
      rw [← show exponent.toNat = 0 by rw [least]; rfl, field]
      rfl
    refine ⟨?_, unpacked, by simpa using sign, ?_, .inr rfl, ?_, le_rfl, finite⟩
    · rw [decode, ofBits_least none, bit, fraction]
      rfl
    · rw [sub_self, Int.toNat_zero, Nat.zero_mul, Nat.zero_add]
      unfold hiddenBit at none
      omega
    · unfold hiddenBit
      omega
  obtain ⟨least, none, zero⟩ | ⟨least, tiny⟩ | ⟨normal, large⟩ := parts
  · exact ⟨_, _, _, small least (.inl ⟨by rw [none]; rfl, zero⟩)⟩
  · exact ⟨_, _, _, small least (.inr tiny)⟩
  · have some : exponent.toNat ≠ 0 := fun zero => normal (BitVec.eq_of_toNat_eq zero)
    have inside : exponent.toNat ≠ 2047 := field ▸ finite
    refine ⟨_, _, _, ?_, .inr large, by simpa using sign, ?_, .inl (Nat.le_add_right _ _), ?_, ?_,
      finite⟩
    · rw [field] at some inside
      rw [decode, ofBits_normal some inside, bit, fraction, field]
      rfl
    · unfold hiddenBit leastExponent
      omega
    · unfold hiddenBit
      omega
    · unfold leastExponent
      omega

/-- A float is its absolute value with its sign put back. -/
theorem Decodes.signed_abs {x : Float} {negative : Bool} {mantissa : Nat} {exponent : Int}
    (found : Decodes x negative mantissa exponent) :
    (if negative then -x.abs else x.abs) = x := by
  have sign := found.sign
  have size := toNat_toBits_abs found.finite
  have bound := x.toBits.toNat_lt
  apply ext_toBits
  apply UInt64.toNat_inj.mp
  cases negative with
  | true =>
    have finite : IsFinite x.abs.toBits := by
      have whole := found.finite
      unfold IsFinite at *
      omega
    rw [if_pos rfl] at sign ⊢
    rw [toNat_toBits_neg finite]
    omega
  | false =>
    rw [if_neg Bool.false_ne_true] at sign ⊢
    omega

end Lox.Decimal
