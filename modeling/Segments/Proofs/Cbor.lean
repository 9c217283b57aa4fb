import Segments.Cbor.Item

/-!
# Round trips of CBOR heads, strings and numbers

A head in its shortest form is read back with any bytes after it, also behind the check for
tags. Strings of known length and whole numbers follow from their heads.
-/

namespace Segments.Cbor

/-- The capacity of eight bytes, as a number. -/
theorem capacity_eight : Bytes.capacity 8 = 18446744073709551616 := by decide

/-- Below the simple values the kind of a head does not depend on the low bits. -/
theorem Head.ofParts_info {major : Nat} (hm : major < 7) (i j : Nat) (a : Option Nat) :
    Head.ofParts major i a = Head.ofParts major j a := by
  match major, hm with
  | 0, _ | 1, _ | 2, _ | 3, _ | 4, _ | 5, _ | 6, _ => rfl

/-- A number of a width is read back with any bytes after it. -/
theorem pullNumber_bigEndian {width n : Nat} (hn : n < Bytes.capacity width) (rest : Bytes) :
    pullNumber width (Bytes.bigEndian width n ++ rest) = some (n, rest) := by
  have h : Bytes.takeExactly width (Bytes.bigEndian width n ++ rest) =
      some (Bytes.bigEndian width n, rest) :=
    Bytes.takeExactly_eq_some_iff.mpr ⟨rfl, Bytes.length_bigEndian width n⟩
  rw [pullNumber, h]
  simp only [Bytes.ofBigEndian_bigEndian, Nat.mod_eq_of_lt hn]

/-- The first byte of a head holds the major type and the low bits. -/
theorem toNat_firstByte {major info : Nat} (hm : major < 8) (hi : info < 32) :
    (UInt8.ofNat (32 * major + info)).toNat / 32 = major ∧
      (UInt8.ofNat (32 * major + info)).toNat % 32 = info := by
  rw [UInt8.toNat_ofNat']
  omega

/-- A first byte and an argument behind it make a head. -/
theorem pull_of_argument {major info : Nat} {a : Option Nat} {tail rest : Bytes}
    (hm : major < 7) (hi : info < 32) (h : pullArgument info tail = some (a, rest)) :
    pull (UInt8.ofNat (32 * major + info) :: tail) =
      (Head.ofParts major 0 a).map (·, rest) := by
  obtain ⟨hmajor, hinfo⟩ := toNat_firstByte (by omega : major < 8) hi
  simp only [pull, hmajor, hinfo, h, Head.ofParts_info hm info 0]
  cases Head.ofParts major 0 a <;> rfl

/-- A head in its shortest form is read back. -/
theorem pull_head {major n : Nat} (hm : major < 7) (hn : n < Bytes.capacity 8) (rest : Bytes) :
    pull (head major n ++ rest) = (Head.ofParts major 0 (some n)).map (·, rest) := by
  unfold head
  split
  · next h => exact pull_of_argument hm (by omega) (by simp [pullArgument, h])
  · split
    · next h =>
      exact pull_of_argument hm (by decide) (by simp [pullArgument, pullNumber_bigEndian h])
    · split
      · next h =>
        exact pull_of_argument hm (by decide) (by simp [pullArgument, pullNumber_bigEndian h])
      · split
        · next h =>
          exact pull_of_argument hm (by decide) (by simp [pullArgument, pullNumber_bigEndian h])
        · exact pull_of_argument hm (by decide) (by simp [pullArgument, pullNumber_bigEndian hn])

/-- A head that is no tag is read the same with and without looking for tags. -/
theorem pullPast_of_pull {keep : Nat → Bool} {b rest : Bytes} {h : Head}
    (hp : pull b = some (h, rest)) (ht : ∀ n, h ≠ .tag n) :
    pullPast keep b = some (h, rest) := by
  rw [pullPast]
  split
  · next hn => simp [hp] at hn
  · next n r hn =>
    rw [hp] at hn
    simp only [Option.some.injEq, Prod.mk.injEq] at hn
    exact absurd hn.1 (ht n)
  · next hn => rw [← hn, hp]

section Heads

variable (keep : Nat → Bool) {n : Nat} (hn : n < Bytes.capacity 8) (rest : Bytes)

include hn

theorem pullPast_positive : pullPast keep (head 0 n ++ rest) = some (.positive n, rest) :=
  pullPast_of_pull (pull_head (by decide) hn rest) (by simp)

theorem pullPast_negative : pullPast keep (head 1 n ++ rest) = some (.negative n, rest) :=
  pullPast_of_pull (pull_head (by decide) hn rest) (by simp)

theorem pullPast_bytes : pullPast keep (head 2 n ++ rest) = some (.bytes (some n), rest) :=
  pullPast_of_pull (pull_head (by decide) hn rest) (by simp)

theorem pullPast_text : pullPast keep (head 3 n ++ rest) = some (.text (some n), rest) :=
  pullPast_of_pull (pull_head (by decide) hn rest) (by simp)

theorem pullPast_array : pullPast keep (head 4 n ++ rest) = some (.array (some n), rest) :=
  pullPast_of_pull (pull_head (by decide) hn rest) (by simp)

theorem pullPast_map : pullPast keep (head 5 n ++ rest) = some (.map (some n), rest) :=
  pullPast_of_pull (pull_head (by decide) hn rest) (by simp)

end Heads

/-- A piece that the form takes is read back. -/
theorem StringForm.piece_append {form : StringForm} {front : Bytes} (h : form.accepts front = true)
    (rest : Bytes) : form.piece front.length (front ++ rest) = some (front, rest) := by
  simp [piece, h]

/-- The range of whole numbers that one head can hold. -/
def InRange (n : Int) : Prop := -(Bytes.capacity 8 : Int) ≤ n ∧ n < (Bytes.capacity 8 : Int)

/-- A whole number is read back. -/
theorem pullInteger_integer {n : Int} (hn : InRange n) (rest : Bytes) :
    pullInteger (integer n ++ rest) = some (n, rest) := by
  obtain ⟨hlow, hhigh⟩ := hn
  unfold integer
  split
  · next h =>
    rw [pullInteger, pullPast_positive _ (by omega)]
    simp only [Option.some.injEq, Prod.mk.injEq, and_true]
    omega
  · next h =>
    rw [pullInteger, pullPast_negative _ (by omega)]
    simp only [Option.some.injEq, Prod.mk.injEq, and_true]
    omega

/-- A natural number below the bound is read back from its head. -/
theorem pullNatural_head {n bound : Nat} (hn : n < Bytes.capacity 8) (hb : n < bound)
    (rest : Bytes) : pullNatural bound (head 0 n ++ rest) = some (n, rest) := by
  rw [pullNatural, pullInteger, pullPast_positive _ hn]
  have h : (0 : Int) ≤ (n : Int) ∧ (n : Int) < (bound : Int) := by omega
  simp [hb]

/-- A step that reads one written item after another reads back a list of them. -/
theorem repeatTimes_flatMap {σ α : Type} {step : σ → Bytes → Option (σ × Bytes)}
    {write : α → Bytes} {take : σ → α → σ}
    (h : ∀ s a rest, step s (write a ++ rest) = some (take s a, rest))
    (items : List α) (s : σ) (rest : Bytes) :
    repeatTimes step items.length s (items.flatMap write ++ rest) =
      some (items.foldl take s, rest) := by
  induction items generalizing s with
  | nil => rfl
  | cons a items ih =>
    rw [List.flatMap_cons, List.append_assoc, List.length_cons, repeatTimes, h]
    exact ih (take s a)

end Segments.Cbor
