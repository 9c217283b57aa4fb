import Segments.Checksum
import Mathlib.Logic.Function.Iterate

/-!
# What the checksum tells apart

A bit step is linear, and it loses nothing, since the highest bit of the polynomial tells which
bit fell out. From the first it follows that the table holds what eight bit steps make of a byte,
so that the two forms of the checksum are one function; from the second, that two byte strings
that differ in one byte have different checksums.
-/

namespace Segments.Checksum

/-- The bit of a remainder at an index, the lowest first. -/
def bit (crc : UInt32) (i : Nat) : Bool := crc.toBitVec.getLsbD i

/-- A word is made of its bits. -/
theorem eq_of_bit {a b : UInt32} (h : ∀ i < 32, bit a i = bit b i) : a = b :=
  UInt32.toBitVec_inj.mp (BitVec.eq_of_getLsbD_eq h)

/-- Bits are added one by one. -/
theorem bit_xor (a b : UInt32) (i : Nat) : bit (a ^^^ b) i = (bit a i ^^ bit b i) := by
  simp [bit]

/-- There are no bits beyond the word. -/
theorem bit_of_le (crc : UInt32) {i : Nat} (h : 32 ≤ i) : bit crc i = false :=
  BitVec.getLsbD_of_ge _ _ h

/-- A shift by one moves each bit by one. -/
theorem bit_shiftRight_one (crc : UInt32) (i : Nat) : bit (crc >>> 1) i = bit crc (i + 1) := by
  simp [bit, Nat.add_comm]

/-- A shift by a byte moves each bit by eight. -/
theorem bit_shiftRight_eight (crc : UInt32) (i : Nat) : bit (crc >>> 8) i = bit crc (i + 8) := by
  simp [bit, Nat.add_comm]

/-- A byte as a word has no bits beyond eight. -/
theorem bit_toUInt32_of_le (byte : UInt8) {i : Nat} (h : 8 ≤ i) :
    bit byte.toUInt32 i = false := by
  simp only [bit, UInt8.toBitVec_toUInt32, BitVec.getLsbD_setWidth,
    BitVec.getLsbD_of_ge byte.toBitVec i h, Bool.and_false]

/-- The last byte of a word has its last eight bits. -/
theorem bit_toUInt8 (crc : UInt32) {i : Nat} (h : i < 8) :
    bit crc.toUInt8.toUInt32 i = bit crc i := by
  simp only [bit, UInt8.toBitVec_toUInt32, UInt32.toBitVec_toUInt8, BitVec.getLsbD_setWidth, h,
    show i < 32 by omega, decide_true, Bool.true_and]

/-- The last bit decides what a step does. -/
theorem and_one_eq_one_iff (crc : UInt32) : crc &&& 1 = 1 ↔ bit crc 0 = true := by
  have hlow : crc.toBitVec &&& 1#32 = BitVec.setWidth 32 (BitVec.ofBool (bit crc 0)) :=
    BitVec.and_one_eq_setWidth_ofBool_getLsbD
  rw [← UInt32.toBitVec_inj, UInt32.toBitVec_and, UInt32.toBitVec_one, hlow]
  cases bit crc 0 <;> decide

/-- What one step does to each bit. -/
theorem bit_bitStep (crc : UInt32) (i : Nat) :
    bit (bitStep crc) i = (bit crc (i + 1) ^^ (bit crc 0 && bit polynomial i)) := by
  unfold bitStep
  cases h : bit crc 0 with
  | false =>
    rw [if_neg (by simp [and_one_eq_one_iff, h]), bit_shiftRight_one]
    simp
  | true =>
    rw [if_pos ((and_one_eq_one_iff crc).mpr h), bit_xor, bit_shiftRight_one]
    simp

/-- A step is linear. -/
theorem bitStep_xor (a b : UInt32) : bitStep (a ^^^ b) = bitStep a ^^^ bitStep b := by
  apply eq_of_bit
  intro i _
  simp only [bit_bitStep, bit_xor, Bool.and_xor_distrib_right, Bool.xor_assoc,
    Bool.xor_left_comm]

/-- A step loses nothing: the polynomial has the highest bit, which so tells what fell out. -/
theorem bitStep_injective : Function.Injective bitStep := by
  intro a b h
  have hbits : ∀ i, (bit a (i + 1) ^^ (bit a 0 && bit polynomial i)) =
      (bit b (i + 1) ^^ (bit b 0 && bit polynomial i)) := by
    intro i
    rw [← bit_bitStep, ← bit_bitStep, h]
  have hlow : bit a 0 = bit b 0 := by
    have htop : bit polynomial 31 = true := by decide
    have h31 := hbits 31
    rw [bit_of_le a (by omega), bit_of_le b (by omega), htop] at h31
    simpa using h31
  apply eq_of_bit
  intro i _
  cases i with
  | zero => exact hlow
  | succ i =>
    have hi := hbits i
    rw [hlow] at hi
    exact Bool.xor_left_inj.mp hi

theorem byteSteps_eq (crc : UInt32) : byteSteps crc = bitStep^[8] crc := rfl

/-- Steps by bits are linear. -/
theorem iterate_bitStep_xor (n : Nat) (a b : UInt32) :
    bitStep^[n] (a ^^^ b) = bitStep^[n] a ^^^ bitStep^[n] b := by
  induction n generalizing a b with
  | zero => rfl
  | succ n ih => rw [Function.iterate_succ_apply, bitStep_xor, ih]; rfl

/-- As long as zeros fall out, a step is a shift. -/
theorem bit_iterate_bitStep {n : Nat} {crc : UInt32} (h : ∀ i < n, bit crc i = false) (i : Nat) :
    bit (bitStep^[n] crc) i = bit crc (i + n) := by
  induction n generalizing i with
  | zero => rfl
  | succ n ih =>
    have hshift := ih fun i hi => h i (Nat.lt_succ_of_lt hi)
    have hzero : bit (bitStep^[n] crc) 0 = false := by
      rw [hshift, Nat.zero_add]
      exact h n (Nat.lt_succ_self n)
    rw [Function.iterate_succ_apply', bit_bitStep, hzero, hshift, Bool.false_and, Bool.xor_false,
      Nat.add_right_comm, Nat.add_assoc]

/-- Eight steps shift the high bits and put the remainder of the low byte to them. -/
theorem byteSteps_eq_xor (crc : UInt32) :
    byteSteps crc = (crc >>> 8) ^^^ byteSteps crc.toUInt8.toUInt32 := by
  let high := crc ^^^ crc.toUInt8.toUInt32
  have hsplit : high ^^^ crc.toUInt8.toUInt32 = crc := by
    rw [UInt32.xor_assoc, UInt32.xor_self, UInt32.xor_zero]
  have hzeros : ∀ i < 8, bit high i = false := by
    intro i hi
    rw [bit_xor, bit_toUInt8 crc hi, Bool.xor_self]
  have hshift : bitStep^[8] high = crc >>> 8 := by
    apply eq_of_bit
    intro i _
    rw [bit_iterate_bitStep hzeros, bit_xor, bit_toUInt32_of_le _ (by omega), Bool.xor_false,
      bit_shiftRight_eight]
  calc byteSteps crc
      = bitStep^[8] (high ^^^ crc.toUInt8.toUInt32) := by rw [hsplit, byteSteps_eq]
    _ = (crc >>> 8) ^^^ byteSteps crc.toUInt8.toUInt32 := by
        rw [iterate_bitStep_xor, hshift, byteSteps_eq]

/-- Taking in a byte by one look-up is taking it in bit by bit. -/
theorem absorb_eq_absorbBitwise (crc : UInt32) (byte : UInt8) :
    absorb crc byte = absorbBitwise crc byte := by
  have hshift : (crc ^^^ byte.toUInt32) >>> 8 = crc >>> 8 := by
    apply eq_of_bit
    intro i _
    rw [bit_shiftRight_eight, bit_xor, bit_toUInt32_of_le _ (by omega), Bool.xor_false,
      bit_shiftRight_eight]
  rw [absorb, absorbBitwise, remainder_eq, byteSteps_eq_xor (crc ^^^ byte.toUInt32), hshift]

/-- The two forms of the checksum are one function. -/
theorem crc32_eq_crc32Bitwise (bytes : Bytes) : crc32 bytes = crc32Bitwise bytes := by
  have h : absorb = absorbBitwise := funext fun crc => funext (absorb_eq_absorbBitwise crc)
  rw [crc32, crc32Bitwise, h]

/-- Eight steps lose nothing. -/
theorem byteSteps_injective : Function.Injective byteSteps := by
  have h : byteSteps = bitStep^[8] := funext byteSteps_eq
  rw [h]
  exact bitStep_injective.iterate 8

/-- Different remainders stay different when the same byte is taken in. -/
theorem absorb_left_injective (byte : UInt8) : Function.Injective (absorb · byte) := by
  intro a b h
  simp only [absorb_eq_absorbBitwise, absorbBitwise] at h
  exact (UInt32.xor_left_inj _).mp (byteSteps_injective h)

/-- Different bytes make the same remainder different. -/
theorem absorb_right_injective (crc : UInt32) : Function.Injective (absorb crc) := by
  intro a b h
  simp only [absorb_eq_absorbBitwise, absorbBitwise] at h
  exact UInt8.toUInt32_inj.mp ((UInt32.xor_right_inj _).mp (byteSteps_injective h))

/-- A sum tells where it began, whatever is absorbed. -/
theorem foldl_absorb_injective (bytes : Bytes) :
    Function.Injective (bytes.foldl absorb ·) := by
  induction bytes with
  | nil => exact Function.injective_id
  | cons byte bytes ih => exact ih.comp (absorb_left_injective byte)

/-- The checksum tells apart byte strings that differ in one byte. -/
theorem crc32_ne_of_ne {a b : UInt8} (h : a ≠ b) (front back : Bytes) :
    crc32 (front ++ a :: back) ≠ crc32 (front ++ b :: back) := by
  intro heq
  simp only [crc32, List.foldl_append, List.foldl_cons, UInt32.xor_left_inj] at heq
  exact h (absorb_right_injective _ (foldl_absorb_injective back heq))

/-- A changed byte makes another checksum. -/
theorem crc32_set_ne {bytes : Bytes} {i : Nat} {b : UInt8} (hi : i < bytes.length)
    (hb : bytes[i]? ≠ some b) : crc32 (bytes.set i b) ≠ crc32 bytes := by
  have hne : b ≠ bytes[i] := by
    intro h
    apply hb
    rw [List.getElem?_eq_getElem hi, h]
  have hsplit : bytes = bytes.take i ++ bytes[i] :: bytes.drop (i + 1) := by
    rw [← List.drop_eq_getElem_cons hi, List.take_append_drop]
  have hset : bytes.set i b = bytes.take i ++ b :: bytes.drop (i + 1) := by
    rw [List.set_eq_take_append_cons_drop, if_pos hi]
  have h := crc32_ne_of_ne hne (bytes.take i) (bytes.drop (i + 1))
  rwa [← hsplit, ← hset] at h

end Segments.Checksum
