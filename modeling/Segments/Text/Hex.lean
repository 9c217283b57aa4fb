import Segments.Bytes

/-!
# Hexadecimal text

Two lower-case digits a byte, the high one first.
-/

namespace Segments.Hex

/-- The lower-case digit of a number below 16. -/
def digit (n : Nat) : Char :=
  if n < 10 then Char.ofNat (48 + n) else Char.ofNat (87 + n)

/-- The two digits of a byte. -/
def ofByte (b : UInt8) : List Char :=
  [digit (b.toNat / 16), digit (b.toNat % 16)]

/-- The digits of a byte string. -/
def encode (bytes : Bytes) : String :=
  String.ofList (bytes.flatMap ofByte)

/-- The value of a digit in either case. -/
def value? (c : Char) : Option Nat :=
  if '0' ≤ c ∧ c ≤ '9' then some (c.toNat - 48)
  else if 'a' ≤ c ∧ c ≤ 'f' then some (c.toNat - 87)
  else if 'A' ≤ c ∧ c ≤ 'F' then some (c.toNat - 55)
  else none

/-- Adds the byte of two digits to the bytes read so far, last byte first. -/
def decodeInto : List Char → Bytes → Option Bytes
  | [], read => some read.reverse
  | [_], _ => none
  | high :: low :: rest, read =>
    match value? high, value? low with
    | some h, some l => decodeInto rest (UInt8.ofNat (16 * h + l) :: read)
    | _, _ => none

/-- The bytes that digits in pairs stand for. -/
def decode? (text : String) : Option Bytes :=
  decodeInto text.toList []

/-- The eight digits of a 32-bit word. -/
def ofWord (w : UInt32) : String :=
  encode (Bytes.bigEndian 4 w.toNat)

/-- The shortest digits of a number, most significant first. -/
def ofNat (n : Nat) : String :=
  String.ofList (Nat.toDigits 16 n)

end Segments.Hex
