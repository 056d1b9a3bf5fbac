import Lox.Decimal.Shortest

/-!
The written forms of numbers. `text` is what a program prints; `jsonText` and `inspectText` keep a
point in whole numbers and turn to exponents at either end.
-/

namespace Lox.Decimal

/-- The choices in which the written forms differ; `point` is that of `Digits`. -/
structure Layout where
  tie : Tie
  positional : Int → Bool
  /-- Whole numbers end in `.0`. -/
  keepPoint : Bool
  /-- Positive exponents have a sign. -/
  plusSign : Bool

/-- Always positional, and whole numbers have no point. -/
def Layout.plain : Layout where
  tie := .up
  positional _ := true
  keepPoint := false
  plusSign := false

/-- Positional from `0.00001` to below `1e16`. -/
def Layout.json : Layout where
  tie := .even
  positional point := -5 < point && point ≤ 16
  keepPoint := true
  plusSign := true

/-- Positional from `0.0001` to below `1e16`. -/
def Layout.inspect : Layout where
  tie := .up
  positional point := -4 < point && point ≤ 16
  keepPoint := true
  plusSign := false

def zeros (n : Nat) : List Char := List.replicate n '0'

def Digits.positional (keepPoint : Bool) (number : Digits) : List Char :=
  let size := number.digits.length
  if number.point ≤ 0 then
    '0' :: '.' :: zeros (-number.point).toNat ++ number.digits
  else
    let point := number.point.toNat
    if size ≤ point then
      number.digits ++ zeros (point - size) ++ (if keepPoint then ['.', '0'] else [])
    else
      number.digits.take point ++ '.' :: number.digits.drop point

def Digits.scientific (plusSign : Bool) (number : Digits) : List Char :=
  let exponent := number.point - 1
  let sign := if exponent < 0 then ['-'] else if plusSign then ['+'] else []
  let fraction := number.digits.drop 1
  number.digits.take 1 ++ (if fraction.isEmpty then [] else '.' :: fraction) ++
    'e' :: sign ++ digitsOf exponent.natAbs

/-- A finite magnitude without its sign. -/
def Layout.write (layout : Layout) (mantissa : Nat) (exponent : Int) : List Char :=
  if mantissa = 0 then
    if layout.keepPoint then ['0', '.', '0'] else ['0']
  else
    let number := shortest layout.tie mantissa exponent
    if layout.positional number.point then number.positional layout.keepPoint
    else number.scientific layout.plusSign

def signed (negative : Bool) (text : List Char) : String :=
  String.ofList (if negative then '-' :: text else text)

def Layout.text (layout : Layout) (x : Float) : String :=
  let decoded := decode x
  match decoded.magnitude with
  | .nan => "NaN"
  | .infinite => signed decoded.negative ['i', 'n', 'f']
  | .finite mantissa exponent => signed decoded.negative (layout.write mantissa exponent)

/-- The whole number a float is, if its magnitude is below `10 ^ 15`. -/
def smallWhole? (x : Float) : Option (Bool × Nat) :=
  let decoded := decode x
  match decoded.magnitude.toNat? with
  | some n => if n < 10 ^ (15 : Nat) then some (decoded.negative, n) else none
  | none => none

def text (x : Float) : String :=
  match smallWhole? x with
  | some (negative, n) => signed negative (digitsOf n)
  | none => Layout.plain.text x

/-- The form in a token list: small whole numbers end in `.0`, and zero has no sign. -/
def tokenText (x : Float) : String :=
  match smallWhole? x with
  | some (negative, n) => signed (negative && n != 0) (digitsOf n ++ ['.', '0'])
  | none => Layout.plain.text x

def inspectText (x : Float) : String := Layout.inspect.text x

/-- JSON has no form for the numbers that are not finite. -/
def jsonText (x : Float) : String :=
  match (decode x).magnitude with
  | .finite .. => Layout.json.text x
  | _ => "null"

end Lox.Decimal
