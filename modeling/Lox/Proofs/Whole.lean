import Lox.Proofs.Bits

/-! The floats that are whole numbers. Whatever their exponent, the number and the mantissa are the
same but for a power of two, so nothing is lost when one is rounded to a float, cast to a machine
word, or written without a point. -/

namespace Lox.Decimal

open Float.Model Float.Model.UnpackedFloat

/-! ### A whole number and its mantissa -/

theorem two_zpow (exponent : Int) :
    (2 : ℚ) ^ exponent * 2 ^ (-exponent).toNat = 2 ^ exponent.toNat := by
  rw [← zpow_natCast, ← zpow_natCast, ← zpow_add₀ two_ne_zero]
  congr 1
  omega

theorem natAbs_apply (sign : Sign) (n : Nat) : (sign.apply n).natAbs = n := by
  cases sign with
  | negative => exact Int.natAbs_neg n
  | positive => rfl

/-- The bits of negative zero. -/
def negativeZero : UInt64 := 0x8000000000000000

namespace Decodes

variable {x : Float} {negative : Bool} {mantissa n : Nat} {exponent whole : Int}

theorem value (decodes : Decodes x negative mantissa exponent) :
    value? x = some ((((signOf negative).apply mantissa : Int) : ℚ) * (2 : ℚ) ^ exponent) := by
  unfold value?
  obtain ⟨none, zero⟩ | ⟨positive, finite⟩ := decodes.unpacked
  · rw [zero, none]
    cases negative <;> simp [signOf, Sign.apply]
  · rw [finite]

/-- Both sides are whole once the power of two is on the side where it is one. -/
theorem scaled (decodes : Decodes x negative mantissa exponent)
    (given : value? x = some (whole : ℚ)) :
    whole * 2 ^ (-exponent).toNat = (signOf negative).apply mantissa * 2 ^ exponent.toNat := by
  have same : (((signOf negative).apply mantissa : Int) : ℚ) * (2 : ℚ) ^ exponent = whole :=
    Option.some.inj (decodes.value.symm.trans given)
  have scaled : (whole : ℚ) * 2 ^ (-exponent).toNat =
      ((signOf negative).apply mantissa : Int) * 2 ^ exponent.toNat := by
    rw [← same, mul_assoc, two_zpow]
  exact_mod_cast scaled

theorem natAbs_scaled (decodes : Decodes x negative mantissa exponent)
    (given : value? x = some (whole : ℚ)) :
    whole.natAbs * 2 ^ (-exponent).toNat = mantissa * 2 ^ exponent.toNat := by
  have both := congrArg Int.natAbs (decodes.scaled given)
  simpa [Int.natAbs_mul, Int.natAbs_pow, natAbs_apply] using both

/-- Zero has either sign. -/
theorem sign_of_whole (decodes : Decodes x negative mantissa exponent)
    (given : value? x = some (whole : ℚ)) : whole = (signOf negative).apply whole.natAbs := by
  have scaled := decodes.scaled given
  have unit : (0 : Int) < 2 ^ (-exponent).toNat := by positivity
  have power : (0 : Int) < 2 ^ exponent.toNat := by positivity
  have some : (0 : Int) ≤ mantissa := Int.natCast_nonneg _
  cases negative with
  | true =>
    have below : whole * 2 ^ (-exponent).toNat ≤ 0 := by
      rw [scaled]
      exact mul_nonpos_of_nonpos_of_nonneg (neg_nonpos.mpr some) power.le
    have := nonpos_of_mul_nonpos_left below unit
    show whole = -(whole.natAbs : Int)
    omega
  | false =>
    have above : 0 ≤ whole * 2 ^ (-exponent).toNat := by
      rw [scaled]
      exact mul_nonneg some power.le
    have := nonneg_of_mul_nonneg_left above unit
    show whole = (whole.natAbs : Int)
    omega

theorem inside (decodes : Decodes x negative mantissa exponent) : exponent ≤ 971 := by
  have finite := decodes.finite
  have bits := decodes.bits
  have below := decodes.below
  have normal := decodes.normal
  have least := decodes.least
  simp only [IsFinite, hiddenBit, leastExponent] at *
  omega

/-- The sign is that of the number, but negative zero has one too. -/
theorem negative_iff (found : Decodes x negative mantissa exponent)
    (given : value? x = some (whole : ℚ)) :
    negative = true ↔ whole < 0 ∨ x.toBits = negativeZero := by
  have sign := found.sign
  have value := found.sign_of_whole given
  constructor
  · rintro rfl
    have value : whole = -(whole.natAbs : Int) := value
    by_cases below : whole < 0
    · exact .inl below
    · obtain rfl : whole = 0 := by omega
      have scaled := found.natAbs_scaled given
      have bits := found.bits
      rw [Int.natAbs_zero, Nat.zero_mul] at scaled
      obtain rfl := (Nat.mul_eq_zero.mp scaled.symm).resolve_right (Nat.two_pow_pos _).ne'
      obtain rfl := found.normal.resolve_left (by decide)
      rw [sub_self, Int.toNat_zero, Nat.zero_mul] at bits
      rw [if_pos rfl] at sign
      refine .inr (UInt64.toNat_inj.mp ?_)
      have zero : negativeZero.toNat = 2 ^ 63 := rfl
      omega
  · rintro (below | zero)
    · by_contra positive
      rw [Bool.not_eq_true] at positive
      subst positive
      have value : whole = (whole.natAbs : Int) := value
      omega
    · by_contra positive
      rw [zero, if_neg positive] at sign
      exact absurd sign (by decide)

end Decodes

/-! ### Reading a whole number -/

theorem roundToEven_mul (whole : Nat) {den : Nat} (some : 0 < den) :
    roundToEven (whole * den) den = whole := by
  simp only [roundToEven, Nat.mul_mod_left, Nat.mul_div_left whole some]
  rw [if_pos (.inl some)]

section Scaled

variable {n mantissa : Nat} {exponent : Int}

theorem exponent_of_scaled (some : n ≠ 0)
    (scaled : n * 2 ^ (-exponent).toNat = mantissa * 2 ^ exponent.toNat)
    (below : mantissa < 2 * hiddenBit) : -52 ≤ exponent := by
  by_contra small
  have unit : exponent.toNat = 0 := by omega
  rw [unit, Nat.pow_zero, Nat.mul_one] at scaled
  have large : 2 ^ 53 ≤ 2 ^ (-exponent).toNat := Nat.pow_le_pow_right (by decide) (by omega)
  have : 2 ^ (-exponent).toNat ≤ n * 2 ^ (-exponent).toNat :=
    Nat.le_mul_of_pos_left _ (Nat.pos_of_ne_zero some)
  unfold hiddenBit at below
  omega

theorem log2_of_scaled (some : n ≠ 0)
    (scaled : n * 2 ^ (-exponent).toNat = mantissa * 2 ^ exponent.toNat)
    (normal : hiddenBit ≤ mantissa) (below : mantissa < 2 * hiddenBit) :
    (n.log2 : Int) = 52 + exponent := by
  have least := exponent_of_scaled some scaled below
  have shifted (bit : Nat) : 2 ^ ((52 + exponent).toNat + bit) * 2 ^ (-exponent).toNat =
      2 ^ (52 + bit) * 2 ^ exponent.toNat := by
    rw [← Nat.pow_add, ← Nat.pow_add]
    congr 1
    omega
  have found : n.log2 = (52 + exponent).toNat := by
    rw [Nat.log2_eq_iff some]
    constructor
    · apply Nat.le_of_mul_le_mul_right _ (Nat.two_pow_pos (-exponent).toNat)
      rw [scaled]
      exact (shifted 0).trans_le (Nat.mul_le_mul_right _ normal)
    · apply Nat.lt_of_mul_lt_mul_right (a := 2 ^ (-exponent).toNat)
      rw [scaled, shifted 1]
      exact Nat.mul_lt_mul_of_pos_right below (Nat.two_pow_pos _)
  omega

theorem binaryOrder_one (some : n ≠ 0) : binaryOrder n 1 = n.log2 := by
  have one : Nat.log2 1 = 0 := by decide
  have least : 2 ^ n.log2 ≤ n := Nat.log2_self_le some
  simp only [binaryOrder, one]
  rw [if_pos (by simpa using least)]
  omega

/-- A whole number that is a float is the float nearest to itself. -/
theorem nearestBits_of_scaled
    (scaled : n * 2 ^ (-exponent).toNat = mantissa * 2 ^ exponent.toNat)
    (normal : hiddenBit ≤ mantissa ∨ exponent = leastExponent) (below : mantissa < 2 * hiddenBit)
    (least : leastExponent ≤ exponent) (inside : exponent ≤ 971) :
    nearestBits n 1 = (exponent - leastExponent).toNat * hiddenBit + mantissa := by
  by_cases none : n = 0
  · subst none
    obtain rfl : mantissa = 0 := by
      rw [Nat.zero_mul] at scaled
      exact (Nat.mul_eq_zero.mp scaled.symm).resolve_right (Nat.two_pow_pos _).ne'
    obtain rfl : exponent = leastExponent := normal.resolve_left (by decide)
    rw [sub_self]
    rfl
  · have large : hiddenBit ≤ mantissa := by
      have above := exponent_of_scaled none scaled below
      refine normal.resolve_right fun smallest => ?_
      rw [smallest] at above
      exact absurd above (by decide)
    have order : binaryOrder n 1 = 52 + exponent :=
      (binaryOrder_one none).trans (log2_of_scaled none scaled large below)
    have top : max (52 + exponent - 52) leastExponent = exponent := by omega
    simp only [nearestBits, if_neg none, order, top, scaled]
    rw [Nat.one_mul, roundToEven_mul mantissa (Nat.two_pow_pos _), Nat.min_eq_right]
    unfold infinityBits hiddenBit leastExponent at *
    omega

end Scaled

/-- A whole number reads back as the float it was, without its sign. -/
theorem nearest_whole {x : Float} {whole : Int} (given : value? x = some (whole : ℚ)) :
    nearest whole.natAbs 1 = x.abs := by
  have finite := isFinite_of_value given
  obtain ⟨negative, mantissa, exponent, found⟩ := decodes finite
  have bits : nearestBits whole.natAbs 1 = x.toBits.toNat % 2 ^ 63 := by
    rw [found.bits]
    exact nearestBits_of_scaled (found.natAbs_scaled given) found.normal found.below found.least
      found.inside
  have word : (UInt64.ofNat (nearestBits whole.natAbs 1)).toNat = x.toBits.toNat % 2 ^ 63 := by
    rw [bits, UInt64.toNat_ofNat']
    omega
  have finite' : IsFinite (UInt64.ofNat (nearestBits whole.natAbs 1)) := by
    unfold IsFinite at *
    omega
  apply ext_toBits
  apply UInt64.toNat_inj.mp
  rw [toNat_toBits_abs finite, nearest, toBits_ofBits finite', word]

/-- The sign of a float is that of its value, but for zero. -/
theorem Decodes.toNat? {x : Float} {negative : Bool} {mantissa : Nat} {exponent whole : Int}
    (found : Decodes x negative mantissa exponent) (given : value? x = some (whole : ℚ)) :
    (decode x).magnitude.toNat? = some whole.natAbs := by
  have scaled := found.natAbs_scaled given
  rw [found.decoded]
  by_cases above : 0 ≤ exponent
  · rw [Int.toNat_of_nonpos (by omega : -exponent ≤ 0), Nat.pow_zero, Nat.mul_one] at scaled
    simp only [Magnitude.toNat?, above, if_true, scaled]
  · rw [Int.toNat_of_nonpos (by omega : exponent ≤ 0), Nat.pow_zero, Nat.mul_one] at scaled
    simp only [Magnitude.toNat?, above, if_false, ← scaled, Nat.mul_mod_left, if_true,
      Nat.mul_div_left _ (Nat.two_pow_pos _)]

theorem text_whole {x : Float} {negative : Bool} {mantissa : Nat} {exponent whole : Int}
    (found : Decodes x negative mantissa exponent) (given : value? x = some (whole : ℚ))
    (small : whole.natAbs < 10 ^ 15) :
    text x = signed negative (digitsOf whole.natAbs) := by
  rw [text, smallWhole?, found.toNat? given]
  simp only [found.decoded]
  rw [if_pos small]

/-! ### Casting -/

theorem mantissa_shiftRight (em : ExtendedMantissa) (bits : Nat) :
    (em >>> bits).mantissa = em.mantissa / 2 ^ bits := by
  induction bits with
  | zero => exact (Nat.div_one _).symm
  | succ bits ih =>
    change (em >>> bits).mantissa / 2 = _
    rw [ih, Nat.div_div_eq_div_mul, Nat.pow_succ]

/-- Nothing is cut off a whole number. -/
theorem roundToInt_of_scaled {sign : Sign} {n mantissa : Nat} {exponent : Int}
    (scaled : n * 2 ^ (-exponent).toNat = mantissa * 2 ^ exponent.toNat) :
    roundToInt sign mantissa exponent = sign.apply n := by
  have shift : (0 - (exponent - exponent.toNat)).toNat = (-exponent).toNat := by omega
  simp only [roundToInt, decreaseExponent, shiftToExponent, mantissa_shiftRight,
    ExtendedMantissa.ofMantissaAndAccuracy, Nat.shiftLeft_eq, sub_zero]
  rw [← scaled, shift, Nat.mul_div_cancel n (Nat.two_pow_pos _)]

theorem toInt64_whole {x : Float} {whole : Int} (given : value? x = some (whole : ℚ))
    (small : whole.natAbs < 10 ^ 15) : x.toModel.toInt64.toInt = whole := by
  obtain ⟨negative, mantissa, exponent, found⟩ := decodes (isFinite_of_value given)
  have scaled := found.natAbs_scaled given
  have exactly : x.toModel.unpack.toInt Int64.minValue.toInt Int64.maxValue.toInt = whole := by
    rw [found.sign_of_whole given]
    obtain ⟨none, zero⟩ | ⟨positive, finite⟩ := found.unpacked
    · rw [none, Nat.zero_mul] at scaled
      rw [(Nat.mul_eq_zero.mp scaled).resolve_right (Nat.two_pow_pos _).ne', zero]
      cases negative <;> rfl
    · rw [finite]
      exact roundToInt_of_scaled scaled
  have lowest : Int64.minValue.toInt ≤ whole := by
    have : Int64.minValue.toInt = -2 ^ 63 := by decide
    omega
  have highest : whole ≤ Int64.maxValue.toInt := by
    have : Int64.maxValue.toInt = 2 ^ 63 - 1 := by decide
    omega
  rw [Float.Model.toInt64, UnpackedFloat.toInt64, exactly]
  exact Int64.toInt_ofIntClamp lowest highest

end Lox.Decimal
