import Segments.Bytes

/-!
# The CRC-32 checksum

The reflected checksum with polynomial `EDB88320`, in two forms. `crc32Bitwise` is the
definition: the remainder takes in one byte by eight single-bit steps. `crc32` takes in one
byte by one look-up in a table of 256 remainders, and is the form that runs.
-/

namespace Segments.Checksum

/-- The reflected generator polynomial. -/
def polynomial : UInt32 := 0xEDB88320

/-- One bit step: shift, and subtract the polynomial when a one falls out. -/
def bitStep (crc : UInt32) : UInt32 :=
  if crc &&& 1 = 1 then (crc >>> 1) ^^^ polynomial else crc >>> 1

/-- Eight bit steps. -/
def byteSteps (crc : UInt32) : UInt32 :=
  bitStep (bitStep (bitStep (bitStep (bitStep (bitStep (bitStep (bitStep crc)))))))

/-- Takes one byte into the remainder bit by bit. -/
def absorbBitwise (crc : UInt32) (byte : UInt8) : UInt32 :=
  byteSteps (crc ^^^ byte.toUInt32)

/-- The checksum by bit steps. -/
def crc32Bitwise (bytes : Bytes) : UInt32 :=
  bytes.foldl absorbBitwise 0xFFFFFFFF ^^^ 0xFFFFFFFF

/-- The remainder of each single byte. -/
def table : Array UInt32 :=
  Array.ofFn fun i : Fin 256 => byteSteps (UInt32.ofNat i.val)

theorem size_table : table.size = 256 := by simp [table]

/-- The remainder of one byte, looked up. -/
def remainder (byte : UInt8) : UInt32 :=
  have : byte.toNat < table.size := by rw [size_table]; exact byte.toNat_lt
  table[byte.toNat]

/-- Takes one byte into the remainder by one look-up. -/
def absorb (crc : UInt32) (byte : UInt8) : UInt32 :=
  (crc >>> 8) ^^^ remainder ((crc ^^^ byte.toUInt32).toUInt8)

/-- The checksum by table look-ups. -/
def crc32 (bytes : Bytes) : UInt32 :=
  bytes.foldl absorb 0xFFFFFFFF ^^^ 0xFFFFFFFF

theorem remainder_eq (byte : UInt8) : remainder byte = byteSteps byte.toUInt32 := by
  simp [remainder, table]

end Segments.Checksum
