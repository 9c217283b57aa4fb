import Segments.Text.Hex

/-!
# Attribute identifiers

An identifier has 128 bits, in two halves. Identifiers with the core high half name attributes
that stay in memory for the life of a segment; all others are extended attributes, which may
leave memory and live in the attribute store.
-/

namespace Segments

/-- A 128-bit attribute identifier. -/
structure AttributeId where
  /-- The high 64 bits. -/
  high : UInt64
  /-- The low 64 bits. -/
  low : UInt64
  deriving DecidableEq, Repr, Inhabited

/-- The value of an attribute. -/
abbrev AttributeValue := Int64

/-- The value that stands for no value; storing it removes the attribute. -/
def nullValue : AttributeValue := Int64.minValue

/-- Attributes with their values, in order. -/
abbrev AttributeValues := List (AttributeId × AttributeValue)

namespace AttributeId

/-- The high half that all core identifiers share. -/
def coreHigh : UInt64 := 0x8000000000000000

/-- The core identifier with the given low half. -/
def core (low : UInt64) : AttributeId := ⟨coreHigh, low⟩

/-- The number of events appended to a segment. -/
def eventCount : AttributeId := core 0

/-- The creation time of a segment in milliseconds. -/
def creationTime : AttributeId := core 1

/-- Whether an identifier names a core attribute. -/
def isCore (id : AttributeId) : Bool := id.high == coreHigh

/-- Whether an identifier names an extended attribute. -/
def isExtended (id : AttributeId) : Bool := !id.isCore

/-- The identifier as one number. -/
def toNat (id : AttributeId) : Nat := id.high.toNat * Bytes.capacity 8 + id.low.toNat

/-- The order of identifiers is that of their bytes. -/
def le (a b : AttributeId) : Bool := decide (a.toNat ≤ b.toNat)

/-- The 16 bytes of an identifier, the highest first. -/
def toBytes (id : AttributeId) : Bytes :=
  Bytes.bigEndian 8 id.high.toNat ++ Bytes.bigEndian 8 id.low.toNat

/-- The identifier with the given 16 bytes. -/
def ofBytes? (bytes : Bytes) : Option AttributeId :=
  if bytes.length = 16 then
    some ⟨UInt64.ofNat (Bytes.ofBigEndian (bytes.take 8)),
      UInt64.ofNat (Bytes.ofBigEndian (bytes.drop 8))⟩
  else none

/-- The five hyphenated groups of hexadecimal digits. -/
def uuidText (id : AttributeId) : String :=
  let bytes := id.toBytes
  Hex.encode (bytes.take 4) ++ "-" ++ Hex.encode ((bytes.drop 4).take 2) ++ "-"
    ++ Hex.encode ((bytes.drop 6).take 2) ++ "-" ++ Hex.encode ((bytes.drop 8).take 2) ++ "-"
    ++ Hex.encode (bytes.drop 10)

/-- Core identifiers are shown by their low half, extended ones by their digit groups. -/
def text (id : AttributeId) : String :=
  if id.isCore then "core:" ++ toString id.low.toNat else id.uuidText

/-- The version digit of an identifier. -/
def version (id : AttributeId) : Nat := (id.high.toNat / 4096) % 16

/-- The random identifier (version 4) made of the given bits. -/
def ofRandom (high low : UInt64) : AttributeId :=
  ⟨(high &&& 0xFFFFFFFFFFFF0FFF) ||| 0x4000, (low &&& 0x3FFFFFFFFFFFFFFF) ||| 0x8000000000000000⟩

@[simp] theorem length_toBytes (id : AttributeId) : id.toBytes.length = 16 := by
  simp [toBytes]

/-- The bytes of an identifier name it. -/
@[simp] theorem ofBytes?_toBytes (id : AttributeId) : ofBytes? id.toBytes = some id := by
  have hh := id.high.toNat_lt
  have hl := id.low.toNat_lt
  have h1 : id.toBytes.take 8 = Bytes.bigEndian 8 id.high.toNat := by
    simp [toBytes]
  have h2 : id.toBytes.drop 8 = Bytes.bigEndian 8 id.low.toNat := by
    simp [toBytes]
  simp only [ofBytes?, length_toBytes, ↓reduceIte, h1, h2, Bytes.ofBigEndian_bigEndian]
  rw [Nat.mod_eq_of_lt (by simpa [Bytes.capacity] using hh),
    Nat.mod_eq_of_lt (by simpa [Bytes.capacity] using hl)]
  simp

end AttributeId

end Segments
