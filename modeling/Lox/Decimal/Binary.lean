/-!
What the 64 bits of a float stand for, and the float nearest to a quotient of natural numbers.
Both directions are exact arithmetic on `Nat`, so printing and reading can be reasoned about.
-/

namespace Lox.Decimal

/-- Powers are those of `Nat` itself, whatever else is imported. -/
scoped instance (priority := high) natPower : Pow Nat Nat := instPowNat

inductive Magnitude
  | nan
  | infinite
  /-- The number `mantissa * 2 ^ exponent`. -/
  | finite (mantissa : Nat) (exponent : Int)
deriving DecidableEq, Repr

structure Decoded where
  negative : Bool
  magnitude : Magnitude
deriving DecidableEq, Repr

/-- The exponent of the least positive float, which is also that of all floats below `2 ^ -1021`. -/
def leastExponent : Int := -1074

/-- The first mantissa with all 53 bits in use. -/
def hiddenBit : Nat := 2 ^ (52 : Nat)

def Decoded.ofBits (bits : Nat) : Decoded where
  negative := bits / 2 ^ (63 : Nat) % 2 = 1
  magnitude :=
    let fraction : Nat := bits % hiddenBit
    let field : Nat := bits / hiddenBit % 2 ^ (11 : Nat)
    if field = 2047 then
      if fraction = 0 then .infinite else .nan
    else if field = 0 then
      .finite fraction leastExponent
    else
      .finite (hiddenBit + fraction) (field + leastExponent - 1)

def decode (x : Float) : Decoded := Decoded.ofBits x.toBits.toNat

/-- The natural number a magnitude is, where it is one. -/
def Magnitude.toNat? : Magnitude → Option Nat
  | .finite mantissa exponent =>
    if 0 ≤ exponent then some (mantissa * 2 ^ exponent.toNat)
    else
      let unit := 2 ^ (-exponent).toNat
      if mantissa % unit = 0 then some (mantissa / unit) else none
  | _ => none

/-- The whole number nearest to a quotient; a half goes to the even neighbour. -/
def roundToEven (num den : Nat) : Nat :=
  let whole := num / den
  let rest := num % den
  if 2 * rest < den ∨ 2 * rest = den ∧ whole % 2 = 0 then whole else whole + 1

/-- The greatest power of two not above a positive quotient, by its exponent. The two logarithms
leave it at one of two values. -/
def binaryOrder (num den : Nat) : Int :=
  let guess : Int := (Nat.log2 num : Int) - Nat.log2 den
  if den * 2 ^ guess.toNat ≤ num * 2 ^ (-guess).toNat then guess else guess - 1

def infinityBits : Nat := 2047 * hiddenBit

/-- The bits of the float nearest to `num / den`. A mantissa that rounds up to `2 ^ 53` carries into
the exponent field, as it should. -/
def nearestBits (num den : Nat) : Nat :=
  if num = 0 then 0
  else
    let exponent := max (binaryOrder num den - 52) leastExponent
    let mantissa := roundToEven (num * 2 ^ (-exponent).toNat) (den * 2 ^ exponent.toNat)
    min infinityBits ((exponent - leastExponent).toNat * hiddenBit + mantissa)

def nearest (num den : Nat) : Float := Float.ofBits (UInt64.ofNat (nearestBits num den))

def digitValue (c : Char) : Nat := c.toNat - '0'.toNat

def ofDigits (digits : List Char) : Nat :=
  digits.foldl (fun value c => 10 * value + digitValue c) 0

/-- The float nearest to the decimal with these digits before and after its point. -/
def read (whole fraction : List Char) : Float :=
  nearest (ofDigits (whole ++ fraction)) (10 ^ fraction.length)

end Lox.Decimal
