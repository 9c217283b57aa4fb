import Mathlib.Algebra.GroupWithZero.Nat
import Mathlib.Algebra.Order.BigOperators.Group.List
import Mathlib.Algebra.Order.Group.Nat
import Segments.Proofs.Journal

/-!
# Records that fit a frame

A frame announces the length of its payload in four bytes. The payload is not much longer than the
texts, bytes and attribute values of its record, so a record with little enough of these has a
frame.
-/

namespace Segments

namespace Cbor

theorem length_head_le (major n : Nat) : (head major n).length ≤ 9 := by
  unfold head
  split
  · simp
  · split
    · simp
    · split
      · simp
      · split <;> simp

theorem length_integer_le (n : Int) : (integer n).length ≤ 9 := by
  unfold integer
  split <;> exact length_head_le _ _

end Cbor

namespace FieldValue

/-- How much a value adds to the length of a payload, but for its head. -/
def weight : FieldValue → Nat
  | number _ => 0
  | text s => s.utf8ByteSize
  | bytes b => b.length
  | attributes values => 64 * values.length

theorem length_encodeAttribute_le (v : AttributeId × AttributeValue) :
    (encodeAttribute v).length ≤ 64 := by
  have hpair := Cbor.length_head_le 4 2
  have hid := Cbor.length_head_le 2 16
  have hvalue := Cbor.length_integer_le v.2.toInt
  simp only [encodeAttribute, List.length_append, AttributeId.length_toBytes]
  omega

theorem length_flatMap_encodeAttribute_le (values : AttributeValues) :
    (values.flatMap encodeAttribute).length ≤ 64 * values.length := by
  induction values with
  | nil => exact Nat.le_refl 0
  | cons v values ih =>
    have hone := length_encodeAttribute_le v
    rw [List.flatMap_cons, List.length_append, List.length_cons]
    omega

theorem length_encode_le (v : FieldValue) : v.encode.length ≤ 9 + v.weight := by
  cases v with
  | number n => exact Cbor.length_head_le 0 n
  | text s =>
    have hhead := Cbor.length_head_le 3 s.utf8ByteSize
    simp only [encode, weight, List.length_append, Bytes.length_ofText]
    omega
  | bytes b =>
    have hhead := Cbor.length_head_le 2 b.length
    simp only [encode, weight, List.length_append]
    omega
  | attributes values =>
    have hhead := Cbor.length_head_le 4 values.length
    have hvalues := length_flatMap_encodeAttribute_le values
    simp only [encode, weight, List.length_append]
    omega

/-- Of a light value only a number can be too large for 64 bits. -/
theorem fits_of_weight {v : FieldValue} (h : v.weight < Bytes.capacity 4)
    (hnumber : ∀ n, v = number n → n < Bytes.capacity 8) : v.fits = true := by
  have hle : Bytes.capacity 4 ≤ Bytes.capacity 8 := by decide
  cases v with
  | number n => exact decide_eq_true (hnumber n rfl)
  | text s => exact decide_eq_true (Nat.lt_of_lt_of_le h hle)
  | bytes b => exact decide_eq_true (Nat.lt_of_lt_of_le h hle)
  | attributes values =>
    simp only [weight] at h
    exact decide_eq_true (by omega)

end FieldValue

namespace Record

/-- The fields of a record take their names, their values and two heads each. -/
theorem length_encodeFields_le (fields : List (String × FieldType)) (values : List FieldValue) :
    (encodeFields fields values).length ≤
      (fields.map fun f => 18 + f.1.utf8ByteSize).sum + (values.map FieldValue.weight).sum := by
  unfold encodeFields
  induction fields generalizing values with
  | nil => simp
  | cons f fields ih =>
    cases values with
    | nil => simp
    | cons v values =>
      have hname := FieldValue.length_encode_le (.text f.1)
      have hvalue := v.length_encode_le
      have hrest := ih values
      simp only [List.zip_cons_cons, List.flatMap_cons, List.length_append, List.map_cons,
        List.sum_cons, FieldValue.weight] at hname hvalue hrest ⊢
      omega

/-- A payload is not much longer than the values of its record. -/
theorem length_encodeFitting_le (r : Record) :
    r.encodeFitting.length ≤ 256 + (r.values.map FieldValue.weight).sum := by
  have hmap := Cbor.length_head_le 5 1
  have hkey := FieldValue.length_encode_le (.text r.kind.key)
  have hcount := Cbor.length_head_le 5 r.kind.fields.length
  have hfields := length_encodeFields_le r.kind.fields r.values
  have hnames : r.kind.key.utf8ByteSize +
      (r.kind.fields.map fun f => 18 + f.1.utf8ByteSize).sum ≤ 220 := by
    generalize r.kind = kind
    cases kind <;> decide
  simp only [encodeFitting, List.length_append, FieldValue.weight] at hkey ⊢
  omega

/-- A record whose numbers have 64 bits has a frame unless it is too heavy. -/
theorem framable_of_weight {r : Record}
    (hnumbers : ∀ v ∈ r.values, ∀ n, v = .number n → n < Bytes.capacity 8)
    (hweight : 256 + (r.values.map FieldValue.weight).sum < Bytes.capacity 4) : r.Framable := by
  refine ⟨List.all_eq_true.mpr fun v hv => ?_,
    Nat.lt_of_le_of_lt r.length_encodeFitting_le hweight⟩
  have hle : v.weight ≤ (r.values.map FieldValue.weight).sum :=
    List.le_sum_of_mem (List.mem_map_of_mem hv)
  exact FieldValue.fits_of_weight (by omega) (hnumbers v hv)

/-- A record that creates a segment has a frame unless its name or its attributes are too long. -/
theorem framable_create {id : SegmentId} {name : String} {attributes : AttributeValues}
    (hid : id < Bytes.capacity 8)
    (hweight : 256 + (name.utf8ByteSize + 64 * attributes.length) < Bytes.capacity 4) :
    (create id name attributes).Framable := by
  refine framable_of_weight ?_ ?_
  · simpa [values] using hid
  · simpa [values, FieldValue.weight] using hweight

/-- The record of an append is longer than the bytes that are appended, so that it has no frame when
there are too many of them. -/
theorem not_framable_append {id : SegmentId} {offset : Nat} {data : Bytes}
    {attributes : AttributeValues} (h : Bytes.capacity 4 ≤ data.length) :
    ¬(append id offset data attributes).Framable := by
  intro hframable
  have hlength := hframable.2
  simp only [encodeFitting, encodeFields, values, kind, RecordKind.fields, List.zip_cons_cons,
    List.flatMap_cons, FieldValue.encode, List.length_append] at hlength
  omega

/-- A record of nothing but numbers that have 64 bits has a frame. -/
theorem framable_of_numbers {r : Record}
    (hnumbers : ∀ v ∈ r.values, ∀ n, v = .number n → n < Bytes.capacity 8)
    (hweightless : (r.values.map FieldValue.weight).sum = 0) : r.Framable :=
  framable_of_weight hnumbers (by rw [hweightless]; decide)

end Record

end Segments
