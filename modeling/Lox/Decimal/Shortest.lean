import Lox.Decimal.Binary

/-!
The fewest decimal digits that read back as a given float, and of those the nearest to it. Each
grid of decimals is tried from coarse to fine; if any of its points reads back as the float, one of
the float's two neighbours on that grid does.
-/

namespace Lox.Decimal

/-- Which of two equally near decimals is taken. -/
inductive Tie
  | up
  | even
deriving DecidableEq, Repr

/-- The number `0.d₁d₂d₃… * 10 ^ point`. -/
structure Digits where
  digits : List Char
  point : Int
deriving DecidableEq, Repr

/-- The reals that round to a float, in quarters of the unit of its mantissa. Below a power of two
the floats lie twice as close. -/
structure Interval where
  low : Nat
  value : Nat
  high : Nat
  closed : Bool

def Interval.around (mantissa : Nat) (exponent : Int) : Interval where
  low := 4 * mantissa - (if mantissa = hiddenBit ∧ leastExponent < exponent then 1 else 2)
  value := 4 * mantissa
  high := 4 * mantissa + 2
  closed := mantissa % 2 = 0

/-- All three numbers, and one step of the grid, in one common unit. -/
structure Scaled extends Interval where
  step : Nat

def Interval.scale (interval : Interval) (exponent grid : Int) : Scaled :=
  let binary := exponent - 2
  let factor := 2 ^ binary.toNat * 10 ^ (-grid).toNat
  { low := interval.low * factor
    value := interval.value * factor
    high := interval.high * factor
    closed := interval.closed
    step := 10 ^ grid.toNat * 2 ^ (-binary).toNat }

def Scaled.holds (scaled : Scaled) (count : Nat) : Bool :=
  let x := count * scaled.step
  scaled.low < x && x < scaled.high || scaled.closed && (x == scaled.low || x == scaled.high)

/-- The point of the grid inside the interval that lies nearest to the value. -/
def Scaled.pick? (scaled : Scaled) (tie : Tie) : Option Nat :=
  let below := scaled.value / scaled.step
  let above := below + 1
  match scaled.holds below, scaled.holds above with
  | false, false => none
  | true, false => some below
  | false, true => some above
  | true, true =>
    let down := scaled.value - below * scaled.step
    let up := above * scaled.step - scaled.value
    if down < up then some below
    else if up < down then some above
    else match tie with
      | .up => some above
      | .even => if below % 2 = 0 then some below else some above

def digitsOf (n : Nat) : List Char := Nat.toDigits 10 n

/-- The `point` of a positive number: the least power of ten above it. -/
def decimalOrder (mantissa : Nat) (exponent : Int) : Int :=
  let num := mantissa * 2 ^ exponent.toNat
  let den := 2 ^ (-exponent).toNat
  if den ≤ num then (digitsOf (num / den)).length
  else 1 - ((digitsOf ((den + num - 1) / num - 1)).length : Int)

def trimZeros (digits : List Char) : List Char :=
  (digits.reverse.dropWhile (· == '0')).reverse

/-- Seventeen digits tell any two floats apart, so no finer grid is needed. -/
def shortest (tie : Tie) (mantissa : Nat) (exponent : Int) : Digits :=
  let interval := Interval.around mantissa exponent
  let order := decimalOrder mantissa exponent
  let found := (List.range 17).findSome? fun (i : Nat) =>
    let grid := order - (i + 1)
    ((interval.scale exponent grid).pick? tie).map fun count => (count, grid)
  let (count, grid) := found.getD (mantissa, 0)
  let digits := digitsOf count
  { digits := trimZeros digits, point := digits.length + grid }

end Lox.Decimal
