/-!
# Byte strings

Byte strings are lists, so that a cut is a `take` and what is left is a `drop`. Fixed-width
numbers are written in either byte order; `takeExactly` is the one way in which a decoder
consumes input, and it fails exactly when too few bytes are left.
-/

namespace Segments

/-- A string of bytes. -/
abbrev Bytes := List UInt8

namespace Bytes

/-- The `width` low bytes of a number, the least significant first. -/
def littleEndian : Nat → Nat → Bytes
  | 0, _ => []
  | width + 1, n => UInt8.ofNat n :: littleEndian width (n / 256)

/-- The number whose bytes are given with the least significant first. -/
def ofLittleEndian : Bytes → Nat
  | [] => 0
  | b :: rest => b.toNat + 256 * ofLittleEndian rest

/-- The `width` low bytes of a number, the most significant first. -/
def bigEndian (width n : Nat) : Bytes :=
  (littleEndian width n).reverse

/-- The number whose bytes are given with the most significant first. -/
def ofBigEndian (bytes : Bytes) : Nat :=
  ofLittleEndian bytes.reverse

/-- The number of byte strings of a length: what that many bytes cannot hold any more. -/
def capacity : Nat → Nat
  | 0 => 1
  | length + 1 => 256 * capacity length

/-- The first `n` bytes and the rest, or nothing when fewer than `n` bytes are there. -/
def takeExactly (n : Nat) (bytes : Bytes) : Option (Bytes × Bytes) :=
  if (bytes.take n).length = n then some (bytes.take n, bytes.drop n) else none

/-- The UTF-8 form of a text. -/
def ofText (text : String) : Bytes :=
  text.toUTF8.data.toList

/-- The text whose UTF-8 form is given; ill-formed bytes have none. -/
def text? (bytes : Bytes) : Option String :=
  String.fromUTF8? ⟨bytes.toArray⟩

@[simp] theorem length_littleEndian (width n : Nat) : (littleEndian width n).length = width := by
  induction width generalizing n with
  | zero => rfl
  | succ width ih => simp [littleEndian, ih]

@[simp] theorem length_bigEndian (width n : Nat) : (bigEndian width n).length = width := by
  simp [bigEndian]

/-- Reading back what was written gives the number modulo the width. -/
theorem ofLittleEndian_littleEndian (width n : Nat) :
    ofLittleEndian (littleEndian width n) = n % capacity width := by
  induction width generalizing n with
  | zero => simp [littleEndian, ofLittleEndian, capacity, Nat.mod_one]
  | succ width ih =>
    have hb : (UInt8.ofNat n).toNat = n % 256 := UInt8.toNat_ofNat'
    rw [littleEndian, ofLittleEndian, ih, hb, capacity, Nat.mod_mul]

theorem ofBigEndian_bigEndian (width n : Nat) :
    ofBigEndian (bigEndian width n) = n % capacity width := by
  simp [ofBigEndian, bigEndian, ofLittleEndian_littleEndian]

theorem takeExactly_eq_some_iff {n : Nat} {bytes front rest : Bytes} :
    takeExactly n bytes = some (front, rest) ↔ bytes = front ++ rest ∧ front.length = n := by
  unfold takeExactly
  constructor
  · intro h
    split at h
    · next hlen =>
      simp only [Option.some.injEq, Prod.mk.injEq] at h
      obtain ⟨rfl, rfl⟩ := h
      exact ⟨(List.take_append_drop n bytes).symm, hlen⟩
    · simp at h
  · rintro ⟨rfl, rfl⟩
    simp

@[simp] theorem takeExactly_append (front rest : Bytes) :
    takeExactly front.length (front ++ rest) = some (front, rest) :=
  takeExactly_eq_some_iff.mpr ⟨rfl, rfl⟩

theorem takeExactly_eq_none_iff {n : Nat} {bytes : Bytes} :
    takeExactly n bytes = none ↔ bytes.length < n := by
  unfold takeExactly
  split
  · next h => simp only [List.length_take] at h; simp; omega
  · next h => simp only [List.length_take] at h; simp; omega

end Bytes

end Segments
