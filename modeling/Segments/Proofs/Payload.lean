import Segments.Journal.Payload
import Segments.Proofs.Cbor

/-!
# Round trip of record payloads

Every value of a field is read back from its item, every member of the map of fields from its
key and value, and so every record from its payload, whatever bytes come after it.
-/

namespace Segments

namespace Bytes

/-- A text has as many bytes as its encoding. -/
@[simp] theorem length_ofText (s : String) : (ofText s).length = s.utf8ByteSize := by
  simp only [ofText, Array.length_toList]
  rfl

/-- The UTF-8 form of a text names the text. -/
@[simp] theorem text?_ofText (s : String) : text? (ofText s) = some s := by
  simp only [text?, ofText, Array.toArray_toList, String.fromUTF8?]
  exact dif_pos s.isValidUTF8

end Bytes

namespace FieldValue

/-- The type of a value. -/
def type : FieldValue → FieldType
  | number _ => .number
  | text _ => .text
  | bytes _ => .bytes
  | attributes _ => .attributes

/-- A text that fits is read back as the content of a string. -/
theorem piece_ofText (s : String) (rest : Bytes) :
    Cbor.StringForm.text.piece s.utf8ByteSize (Bytes.ofText s ++ rest) =
      some (Bytes.ofText s, rest) := by
  rw [← Bytes.length_ofText]
  exact Cbor.StringForm.piece_append (by simp [Cbor.StringForm.accepts]) rest

/-- A text is read back. -/
theorem decodeText_encode {s : String} (hs : (text s).fits = true) (rest : Bytes) :
    decodeText ((text s).encode ++ rest) = some (s, rest) := by
  have hfit : s.utf8ByteSize < Bytes.capacity 8 := of_decide_eq_true hs
  rw [encode, List.append_assoc, decodeText, Cbor.pullPast_text _ hfit]
  simp only [Cbor.stringBody, piece_ofText, Bytes.text?_ofText, Option.map_some]

/-- Bytes are read back. -/
theorem decodeBytes_encode {b : Bytes} (hb : (bytes b).fits = true) (rest : Bytes) :
    decodeBytes ((bytes b).encode ++ rest) = some (b, rest) := by
  have hfit : b.length < Bytes.capacity 8 := of_decide_eq_true hb
  rw [encode, List.append_assoc, decodeBytes, Cbor.pullPast_bytes _ hfit]
  exact Cbor.StringForm.piece_append rfl rest

/-- The id of an attribute is read back. -/
theorem decodeId_encode (id : AttributeId) (rest : Bytes) :
    decodeId (Cbor.head 2 16 ++ id.toBytes ++ rest) = some (id, rest) := by
  have htake : Bytes.takeExactly 16 (id.toBytes ++ rest) = some (id.toBytes, rest) :=
    Bytes.takeExactly_eq_some_iff.mpr ⟨rfl, AttributeId.length_toBytes id⟩
  rw [List.append_assoc, decodeId, Cbor.pullPast_bytes _ (by decide)]
  simp only [htake, AttributeId.ofBytes?_toBytes, Option.map_some]

/-- Every attribute value is a number that one head can hold. -/
theorem inRange_toInt (v : AttributeValue) : Cbor.InRange v.toInt := by
  have hlow := v.le_toInt
  have hhigh := v.toInt_lt
  rw [Cbor.InRange, Cbor.capacity_eight]
  omega

/-- An attribute and its value are read back. -/
theorem decodeAttribute_encode (read : AttributeValues) (a : AttributeId × AttributeValue)
    (rest : Bytes) :
    decodeAttribute read (encodeAttribute a ++ rest) = some (a :: read, rest) := by
  have hbounds : Int64.minValue.toInt ≤ a.2.toInt ∧ a.2.toInt ≤ Int64.maxValue.toInt :=
    ⟨a.2.minValue_le_toInt, a.2.toInt_le⟩
  have hid := decodeId_encode a.1 (Cbor.integer a.2.toInt ++ rest)
  simp only [List.append_assoc] at hid
  simp only [encodeAttribute, List.append_assoc]
  rw [decodeAttribute, Cbor.pullPast_array _ (by decide)]
  simp only [hid, Cbor.pullBounded, Cbor.pullInteger_integer (inRange_toInt a.2), hbounds,
    and_self, ↓reduceIte, Option.map_some, Int64.ofInt_toInt, Option.all_some, Nat.le_refl,
    decide_true]

/-- Reading puts each pair in front of those before it. -/
theorem foldl_cons {α : Type} (values read : List α) :
    values.foldl (fun r a => a :: r) read = values.reverse ++ read := by
  induction values generalizing read with
  | nil => rfl
  | cons a values ih => simp [ih]

/-- A list of attributes is read back. -/
theorem decodeAttributes_encode {values : AttributeValues}
    (hv : (attributes values).fits = true) (rest : Bytes) :
    decodeAttributes ((attributes values).encode ++ rest) = some (values, rest) := by
  have hfit : values.length < Bytes.capacity 8 := of_decide_eq_true hv
  rw [encode, List.append_assoc, decodeAttributes, Cbor.pullPast_array _ hfit]
  simp only [Cbor.repeatFor, Cbor.repeatTimes_flatMap decodeAttribute_encode, foldl_cons,
    List.append_nil, Option.map_some, List.reverse_reverse]

/-- A value that fits is read back from its item. -/
theorem decode_encode {v : FieldValue} (hv : v.fits = true) (rest : Bytes) :
    decode v.type (v.encode ++ rest) = some (v, rest) := by
  cases v with
  | number n =>
    have hfit : n < Bytes.capacity 8 := of_decide_eq_true hv
    simp only [type, decode, encode, Cbor.pullNatural_head hfit hfit, Option.map_some]
  | text s => simp only [type, decode, decodeText_encode hv, Option.map_some]
  | bytes b => simp only [type, decode, decodeBytes_encode hv, Option.map_some]
  | attributes values => simp only [type, decode, decodeAttributes_encode hv, Option.map_some]

end FieldValue

namespace Record

/-- A key that is short enough is read back. -/
theorem decodeKey_encode {s : String} (hs : s.utf8ByteSize ≤ maxKeyLength) (rest : Bytes) :
    decodeKey ((FieldValue.text s).encode ++ rest) = some (Bytes.ofText s, rest) := by
  have hfit : s.utf8ByteSize < Bytes.capacity 8 := by
    rw [Cbor.capacity_eight]
    simp only [maxKeyLength] at hs
    omega
  rw [FieldValue.encode, List.append_assoc, decodeKey, Cbor.pullPast_text _ hfit]
  simp only [hs, ↓reduceIte, FieldValue.piece_ofText]

/-- A field with its value, as a member of the map of fields. -/
def encodeMember (m : (String × FieldType) × FieldValue) : Bytes :=
  (FieldValue.text m.1.1).encode ++ m.2.encode

/-- A member of a map of fields that is written as its field asks. -/
structure IsMember (fields : List (String × FieldType)) (m : (String × FieldType) × FieldValue) :
    Prop where
  /-- The name is short enough to be looked at. -/
  short : m.1.1.utf8ByteSize ≤ maxKeyLength
  /-- The field is found by its name. -/
  known : (fields.find? fun f => Bytes.ofText f.1 == Bytes.ofText m.1.1) = some m.1
  /-- The value has the type of the field. -/
  typed : m.2.type = m.1.2
  /-- The value can be written. -/
  fits : m.2.fits = true

/-- A field is read back by its name, if it was not found before. -/
theorem decodeMember_encode {fields : List (String × FieldType)}
    {m : (String × FieldType) × FieldValue} (hm : IsMember fields m)
    {found : List (String × FieldValue)} (hnew : found.lookup m.1.1 = none) (rest : Bytes) :
    decodeMember fields found (encodeMember m ++ rest) = some ((m.1.1, m.2) :: found, rest) := by
  rw [encodeMember, List.append_assoc, decodeMember, decodeKey_encode hm.short]
  simp only [hm.known, hnew, Option.isSome_none, Bool.false_eq_true, ↓reduceIte, ← hm.typed,
    FieldValue.decode_encode hm.fits, Option.map_some]

/-- Members with different names are read back one after another. -/
theorem repeatTimes_decodeMember {fields : List (String × FieldType)}
    (members : List ((String × FieldType) × FieldValue))
    (hm : ∀ m ∈ members, IsMember fields m) (hd : (members.map fun m => m.1.1).Nodup)
    (found : List (String × FieldValue)) (hnew : ∀ m ∈ members, found.lookup m.1.1 = none)
    (rest : Bytes) :
    Cbor.repeatTimes (decodeMember fields) members.length found
        (members.flatMap encodeMember ++ rest) =
      some ((members.map fun m => (m.1.1, m.2)).reverse ++ found, rest) := by
  induction members generalizing found with
  | nil => rfl
  | cons m members ih =>
    obtain ⟨hnot, hd'⟩ := List.nodup_cons.mp hd
    have hnew' : ∀ m' ∈ members, List.lookup m'.1.1 ((m.1.1, m.2) :: found) = none := by
      intro m' hm'
      have hne : (m'.1.1 == m.1.1) = false := by
        rw [beq_eq_false_iff_ne]
        intro he
        exact hnot (List.mem_map.mpr ⟨m', hm', he⟩)
      rw [List.lookup_cons, hne]
      exact hnew m' (List.mem_cons_of_mem _ hm')
    rw [List.flatMap_cons, List.append_assoc, List.length_cons, Cbor.repeatTimes,
      decodeMember_encode (hm m List.mem_cons_self) (hnew m List.mem_cons_self)]
    simp only
    rw [ih (fun m' hm' => hm m' (List.mem_cons_of_mem _ hm')) hd' _ hnew']
    simp

/-- The fields of a record with their values. -/
def members (r : Record) : List ((String × FieldType) × FieldValue) := r.kind.fields.zip r.values

/-- A record has a value for each field. -/
theorem length_members (r : Record) : r.members.length = r.kind.fields.length := by
  cases r <;> rfl

/-- No field comes twice. -/
theorem nodup_members (r : Record) : (r.members.map fun m => m.1.1).Nodup := by
  cases r <;> simp [members, kind, RecordKind.fields, values]

/-- The fields of each kind are found by their short names. -/
theorem known_fields (k : RecordKind) : ∀ f ∈ k.fields, f.1.utf8ByteSize ≤ maxKeyLength ∧
    (k.fields.find? fun g => Bytes.ofText g.1 == Bytes.ofText f.1) = some f := by
  cases k <;> decide

/-- The values of a record have the types of its fields. -/
theorem type_of_mem_members {r : Record} {m : (String × FieldType) × FieldValue}
    (hm : m ∈ r.members) : m.2.type = m.1.2 := by
  cases r <;>
    simp only [members, kind, RecordKind.fields, values, List.zip_cons_cons, List.zip_nil_right,
      List.mem_cons, List.not_mem_nil, or_false] at hm
  all_goals rcases hm with rfl | rfl | rfl | rfl
  all_goals rfl

/-- The members of a record belong to its fields. -/
theorem isMember_members {r : Record} (hr : r.fits = true) :
    ∀ m ∈ r.members, IsMember r.kind.fields m := by
  have hfits : ∀ v ∈ r.values, v.fits = true := List.all_eq_true.mp hr
  intro m hm
  obtain ⟨hfield, hvalue⟩ := List.of_mem_zip hm
  obtain ⟨hshort, hknown⟩ := known_fields r.kind m.1 hfield
  exact ⟨hshort, hknown, type_of_mem_members hm, hfits m.2 hvalue⟩

/-- The values of a record are found under the names of its fields. -/
theorem mapM_lookup_members (r : Record) :
    (r.kind.fields.mapM fun f => (r.members.map fun m => (m.1.1, m.2)).reverse.lookup f.1) =
      some r.values := by
  cases r <;> rfl

/-- A record is built from its values. -/
theorem build_values (r : Record) : r.kind.build r.values = some r := by
  cases r <;> rfl

/-- The fields are encoded member by member. -/
theorem encodeFields_eq (r : Record) :
    encodeFields r.kind.fields r.values = r.members.flatMap encodeMember := rfl

/-- Field counts and keys are short. -/
theorem length_fields_key (k : RecordKind) :
    k.fields.length < Bytes.capacity 8 ∧ k.key.utf8ByteSize ≤ maxKeyLength := by
  cases k <;> decide

/-- The fields of a record are read back. -/
theorem decodeBody_encode {r : Record} (hr : r.fits = true) (rest : Bytes) :
    decodeBody r.kind (Cbor.head 5 r.kind.fields.length ++
      encodeFields r.kind.fields r.values ++ rest) = some r := by
  have hlen : r.kind.fields.length < Bytes.capacity 8 := (length_fields_key r.kind).1
  have hread := repeatTimes_decodeMember r.members (isMember_members hr) (nodup_members r) []
    (by simp) rest
  rw [length_members, List.append_nil] at hread
  rw [List.append_assoc, decodeBody, Cbor.pull_head (by decide) hlen]
  simp only [Cbor.Head.ofParts, Option.map_some, decodeMap, Cbor.repeatFor, encodeFields_eq,
    hread, mapM_lookup_members, Option.bind_some, build_values]

/-- A kind of record is found by its key. -/
theorem find_key (k : RecordKind) :
    (RecordKind.all.find? fun j => Bytes.ofText j.key == Bytes.ofText k.key) = some k := by
  cases k <;> decide

/-- A record that fits is read back from its payload, with any bytes after it. -/
theorem decodeAny_encodeFitting {r : Record} (hr : r.fits = true) (rest : Bytes) :
    decodeAny (r.encodeFitting ++ rest) = some r := by
  have hkey : r.kind.key.utf8ByteSize ≤ maxKeyLength := (length_fields_key r.kind).2
  have hpull := Cbor.pull_head (by decide : 5 < 7) (by decide : 1 < Bytes.capacity 8)
    ((FieldValue.text r.kind.key).encode ++ (Cbor.head 5 r.kind.fields.length ++
      encodeFields r.kind.fields r.values ++ rest))
  have hpast := Cbor.pullPast_map (fun _ => false) (by decide : 1 < Bytes.capacity 8)
    ((FieldValue.text r.kind.key).encode ++ (Cbor.head 5 r.kind.fields.length ++
      encodeFields r.kind.fields r.values ++ rest))
  simp only [Cbor.Head.ofParts, Option.map_some] at hpull
  simp only [encodeFitting, decodeAny, List.append_assoc] at hpull hpast ⊢
  rw [hpull, hpast]
  simp only [decodeKeyed, decodeKey_encode hkey, find_key]
  simpa only [List.append_assoc] using decodeBody_encode hr rest

/-- The payload of a record that fits is read back as that record. -/
theorem decode_encodeFitting {r : Record} (hr : r.fits = true) :
    decode r.kind r.encodeFitting = .ok r := by
  have h := decodeAny_encodeFitting hr []
  rw [List.append_nil] at h
  simp only [decode, h, ↓reduceIte]

end Record

end Segments
