import Segments.Proofs.Checksum

/-!
# The checksum as a shift register

The checksum is defined by a register of 32 bits that takes in a message bit by bit, each byte from
its lowest bit on. In each step the register moves down by one bit; where the bit that falls out
differs from the bit that comes in, the polynomial is subtracted. A look-up in the table takes in
the eight bits of a byte at once.
-/

namespace Segments.Checksum

/-- The bits of a byte, the lowest first. -/
def bits (byte : UInt8) : List Bool := (List.range 8).map byte.toNat.testBit

/-- Takes one bit into the register. -/
def shiftIn (register : UInt32) (b : Bool) : UInt32 :=
  if bit register 0 = b then register >>> 1 else (register >>> 1) ^^^ polynomial

/-- The checksum bit by bit: all ones at first, and complemented at the end. -/
def crc32Serial (bytes : Bytes) : UInt32 :=
  ~~~((bytes.flatMap bits).foldl shiftIn 0xFFFFFFFF)

theorem bit_toUInt32 (byte : UInt8) (i : Nat) : bit byte.toUInt32 i = byte.toNat.testBit i := by
  by_cases hi : i < 8
  · have hwide : i < 32 := by omega
    simp only [bit, UInt8.toBitVec_toUInt32, BitVec.getLsbD_setWidth, hwide, decide_true,
      Bool.true_and]
    rfl
  · have hle : 8 ≤ i := Nat.not_lt.mp hi
    rw [bit_toUInt32_of_le byte hle, Nat.testBit_lt_two_pow]
    exact Nat.lt_of_lt_of_le byte.toNat_lt (Nat.pow_le_pow_right (by decide) hle)

/-- What taking in a bit does to each bit of the register. -/
theorem bit_shiftIn (register : UInt32) (b : Bool) (i : Nat) : bit (shiftIn register b) i =
    (bit register (i + 1) ^^ ((bit register 0 ^^ b) && bit polynomial i)) := by
  unfold shiftIn
  split
  · next h => rw [h, bit_shiftRight_one, Bool.xor_self, Bool.false_and, Bool.xor_false]
  · next h =>
    have hdiffer : (bit register 0 ^^ b) = true := by simpa using h
    rw [hdiffer, bit_xor, bit_shiftRight_one, Bool.true_and]

/-- A word without its lowest bit. -/
def dropBit (word : UInt32) : UInt32 := word >>> 1

/-- A bit step on a register into which a word was put takes in the lowest bit of the word and
leaves the rest of it in the register. -/
theorem bitStep_xor_eq (register word : UInt32) :
    bitStep (register ^^^ word) = shiftIn register (bit word 0) ^^^ dropBit word := by
  apply eq_of_bit
  intro i _
  rw [bit_bitStep, bit_xor, bit_xor, bit_xor, bit_shiftIn, dropBit, bit_shiftRight_one,
    Bool.xor_right_comm]

theorem bit_iterate_dropBit (n : Nat) (word : UInt32) (i : Nat) :
    bit (dropBit^[n] word) i = bit word (i + n) := by
  induction n generalizing i with
  | zero => rfl
  | succ n ih =>
    rw [Function.iterate_succ_apply', dropBit, bit_shiftRight_one, ih, Nat.add_right_comm,
      Nat.add_assoc]

/-- As many bit steps as there are bits to take in. -/
theorem iterate_bitStep_xor_eq (n : Nat) (register word : UInt32) :
    bitStep^[n] (register ^^^ word) =
      ((List.range n).map (bit word)).foldl shiftIn register ^^^ dropBit^[n] word := by
  induction n generalizing register word with
  | zero => rfl
  | succ n ih =>
    have hbits : (List.range (n + 1)).map (bit word) =
        bit word 0 :: (List.range n).map (bit (dropBit word)) := by
      rw [List.range_succ_eq_map, List.map_cons, List.map_map]
      congr 2
      funext i
      exact (bit_shiftRight_one word i).symm
    rw [Function.iterate_succ_apply, bitStep_xor_eq, ih, hbits, List.foldl_cons,
      Function.iterate_succ_apply]

/-- Taking in a byte by one look-up is taking in its bits one by one. -/
theorem absorb_eq_foldl_shiftIn (register : UInt32) (byte : UInt8) :
    absorb register byte = (bits byte).foldl shiftIn register := by
  have hbits : (List.range 8).map (bit byte.toUInt32) = bits byte :=
    List.map_congr_left fun i _ => bit_toUInt32 byte i
  have hout : dropBit^[8] byte.toUInt32 = 0 := by
    apply eq_of_bit
    intro i _
    rw [bit_iterate_dropBit, bit_toUInt32_of_le byte (Nat.le_add_left 8 i)]
    exact BitVec.getLsbD_zero.symm
  calc absorb register byte
      = bitStep^[8] (register ^^^ byte.toUInt32) := by
        rw [absorb_eq_absorbBitwise, absorbBitwise, byteSteps_eq]
    _ = (bits byte).foldl shiftIn register := by
        rw [iterate_bitStep_xor_eq, hbits, hout, UInt32.xor_zero]

theorem crc32_eq_crc32Serial (bytes : Bytes) : crc32 bytes = crc32Serial bytes := by
  have h : absorb = fun register byte => (bits byte).foldl shiftIn register :=
    funext fun register => funext (absorb_eq_foldl_shiftIn register)
  have hones : (0xFFFFFFFF : UInt32) = -1 := by decide
  rw [crc32, crc32Serial, List.foldl_flatMap, ← h, hones, UInt32.xor_neg_one]

/-- Byte strings of one length that differ in one byte only are one byte string and that one with a
byte changed. -/
theorem eq_set_of_existsUnique {a b : Bytes} (hlength : a.length = b.length)
    (h : ∃! i : Nat, a[i]? ≠ b[i]?) : ∃ i y, i < a.length ∧ a[i]? ≠ some y ∧ b = a.set i y := by
  obtain ⟨i, hne, honly⟩ := h
  have hi : i < b.length := by
    by_contra hle
    have hle := Nat.not_lt.mp hle
    exact hne (by rw [List.getElem?_eq_none hle, List.getElem?_eq_none (hlength ▸ hle)])
  refine ⟨i, b[i], hlength ▸ hi, ?_, ?_⟩
  · rwa [← List.getElem?_eq_getElem hi]
  · apply List.ext_getElem?
    intro j
    by_cases hj : i = j
    · subst hj
      rw [List.getElem?_set_self (hlength ▸ hi), List.getElem?_eq_getElem hi]
    · rw [List.getElem?_set_ne hj]
      by_contra hdiff
      exact hj (honly j (Ne.symm hdiff)).symm

/-- The checksum by table look-ups is the checksum bit by bit, whether a byte is put into the
register at once or bit after bit, and two byte strings of one length that differ in just one byte
have different checksums. -/
theorem serial_and_separates :
    (∀ bytes, crc32 bytes = crc32Serial bytes ∧ crc32 bytes = crc32Bitwise bytes) ∧
    ∀ a b : Bytes, a.length = b.length → (∃! i : Nat, a[i]? ≠ b[i]?) → crc32 a ≠ crc32 b := by
  refine ⟨fun bytes => ⟨crc32_eq_crc32Serial bytes, crc32_eq_crc32Bitwise bytes⟩, ?_⟩
  intro a b hlength h
  obtain ⟨i, y, hi, hy, rfl⟩ := eq_set_of_existsUnique hlength h
  exact (crc32_set_ne hi hy).symm

theorem serial_and_separates_triple :
    (∃! i : Nat, ([1, 2, 3] : Bytes)[i]? ≠ ([1, 0, 3] : Bytes)[i]?) ∧
      crc32 [1, 2, 3] = crc32Serial [1, 2, 3] ∧ crc32 [1, 2, 3] ≠ crc32 [1, 0, 3] := by
  have h : ∃! i : Nat, ([1, 2, 3] : Bytes)[i]? ≠ ([1, 0, 3] : Bytes)[i]? := by
    refine ⟨1, by decide, fun j hj => ?_⟩
    match j with
    | 0 => exact absurd rfl hj
    | 1 => rfl
    | 2 => exact absurd rfl hj
    | _ + 3 => exact absurd rfl hj
  exact ⟨h, (serial_and_separates.1 _).1, serial_and_separates.2 _ _ rfl h⟩

/-- The checksum of the digits from one to nine. -/
example : crc32 (Bytes.ofText "123456789") = 0xCBF43926 := by
  rw [crc32_eq_crc32Bitwise]
  decide +kernel

end Segments.Checksum
