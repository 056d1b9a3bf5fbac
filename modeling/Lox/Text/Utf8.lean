/-!
UTF-8 read byte by byte. Each leading byte fixes the ranges of the bytes it still needs, so the
first byte out of its range is where the text goes wrong.
-/

namespace Lox.Text.Utf8

/-- Where a sequence that is no character starts, and how many of its bytes could have begun one.
`none` when the bytes end inside a sequence that is sound so far. -/
structure Fault where
  index : Nat
  length : Option Nat
deriving DecidableEq, Repr

def Fault.message (fault : Fault) : String :=
  match fault.length with
  | some length => s!"invalid utf-8 sequence of {length} bytes from index {fault.index}"
  | none => s!"incomplete utf-8 byte sequence from index {fault.index}"

structure Range where
  least : UInt8
  greatest : UInt8

def Range.holds (range : Range) (byte : UInt8) : Bool :=
  range.least ≤ byte && byte ≤ range.greatest

def tail : Range := ⟨0x80, 0xBF⟩

/-- The first follower is narrowed after four leading bytes, which keeps out long forms, surrogates
and numbers past the last character. -/
def followers? (lead : UInt8) : Option (List Range) :=
  if lead < 0x80 then some []
  else if lead < 0xC2 then none
  else if lead < 0xE0 then some [tail]
  else if lead = 0xE0 then some [⟨0xA0, 0xBF⟩, tail]
  else if lead = 0xED then some [⟨0x80, 0x9F⟩, tail]
  else if lead < 0xF0 then some [tail, tail]
  else if lead = 0xF0 then some [⟨0x90, 0xBF⟩, tail, tail]
  else if lead < 0xF4 then some [tail, tail, tail]
  else if lead = 0xF4 then some [⟨0x80, 0x8F⟩, tail, tail]
  else none

/-- The part of a leading byte that counts towards the character's number. -/
def leadBits (lead : UInt8) : Nat :=
  if lead < 0x80 then lead.toNat
  else if lead < 0xE0 then lead.toNat % 32
  else if lead < 0xF0 then lead.toNat % 16
  else lead.toNat % 8

/-- A character some of whose bytes are still to come. -/
structure Partial where
  start : Nat
  seen : Nat
  bits : Nat
  expected : Range
  later : List Range

/-- `text` holds the characters read so far, last first, and `index` counts the bytes. -/
def decodeFrom (index : Nat) (text : List Char) :
    Option Partial → List UInt8 → Except Fault (List Char)
  | none, [] => .ok text.reverse
  | some begun, [] => .error ⟨begun.start, none⟩
  | none, byte :: rest =>
    match followers? byte with
    | none => .error ⟨index, some 1⟩
    | some [] => decodeFrom (index + 1) (Char.ofNat (leadBits byte) :: text) none rest
    | some (expected :: later) =>
      decodeFrom (index + 1) text (some ⟨index, 1, leadBits byte, expected, later⟩) rest
  | some begun, byte :: rest =>
    if begun.expected.holds byte then
      let bits := begun.bits * 64 + byte.toNat % 64
      match begun.later with
      | [] => decodeFrom (index + 1) (Char.ofNat bits :: text) none rest
      | expected :: later =>
        decodeFrom (index + 1) text
          (some ⟨begun.start, begun.seen + 1, bits, expected, later⟩) rest
    else .error ⟨begun.start, some begun.seen⟩

def decode (bytes : List UInt8) : Except Fault String :=
  (decodeFrom 0 [] none bytes).map String.ofList

end Lox.Text.Utf8
