import Segments.Proofs.Locality
import Segments.Proofs.Payload

/-!
# Payloads that delimit themselves

The readers of field values look no further than they read, and so does the reader of a member of a
map of fields. A payload is therefore read to its last byte: with more bytes behind it the same
record is found, of any part of it that lacks the end nothing is found. No payload is the beginning
of another one.
-/

namespace Segments

namespace FieldValue

open Cbor

/-- Texts are read locally. -/
theorem isLocal_decodeText : IsLocal decodeText := by
  intro bytes s rest h more
  unfold decodeText at h ⊢
  split at h
  · next len tail hpull =>
    split at h
    · next content tail' hcontent =>
      obtain ⟨text, htext, heq⟩ := Option.map_eq_some_iff.mp h
      cases heq
      simp only [isLocal_pullPast _ hpull more, isLocal_stringBody _ _ hcontent more, htext,
        Option.map_some]
    · cases h
  · cases h

/-- A byte of a list is read locally. -/
theorem isLocal_decodeByte (read : Bytes) : IsLocal (decodeByte read) :=
  (isLocal_pullNatural 256).map fun n => UInt8.ofNat n :: read

/-- Bytes are read locally. -/
theorem isLocal_decodeBytes : IsLocal decodeBytes := by
  intro bytes data rest h more
  unfold decodeBytes at h ⊢
  split at h
  · next len tail hpull =>
    rw [isLocal_pullPast _ hpull more]
    exact isLocal_stringBody .bytes len h more
  · next len tail hpull =>
    rw [isLocal_pullPast _ hpull more]
    exact (IsLocal.repeatFor isLocal_decodeByte len []).map List.reverse h more
  · cases h

/-- The id of an attribute is read locally. -/
theorem isLocal_decodeId : IsLocal decodeId := by
  intro bytes id rest h more
  unfold decodeId at h ⊢
  split at h
  · next tail hpull =>
    split at h
    · next front tail' hfront =>
      obtain ⟨id', hid, heq⟩ := Option.map_eq_some_iff.mp h
      cases heq
      simp only [isLocal_pullPast _ hpull more, isLocal_takeExactly 16 hfront more, hid,
        Option.map_some]
    · cases h
  · cases h

/-- An attribute and its value are read locally. -/
theorem isLocal_decodeAttribute (read : AttributeValues) : IsLocal (decodeAttribute read) := by
  intro bytes values rest h more
  unfold decodeAttribute at h ⊢
  split at h
  · next len tail hpull =>
    split at h
    · next hlen =>
      split at h
      · next id tail' hid =>
        simp only [isLocal_pullPast _ hpull more, if_pos hlen, isLocal_decodeId hid more]
        exact (isLocal_pullBounded _ _).map (fun n => (id, Int64.ofInt n) :: read) h more
      · cases h
    · cases h
  · cases h

/-- A list of attributes is read locally. -/
theorem isLocal_decodeAttributes : IsLocal decodeAttributes := by
  intro bytes values rest h more
  unfold decodeAttributes at h ⊢
  split at h
  · next len tail hpull =>
    rw [isLocal_pullPast _ hpull more]
    exact (IsLocal.repeatFor isLocal_decodeAttribute len []).map List.reverse h more
  · next len tail hpull =>
    split at h
    · next tail' hempty =>
      cases h
      simp only [isLocal_pullPast _ hpull more, isLocal_stringBody _ _ hempty more]
    · cases h
  · cases h

/-- A field of any type is read locally. -/
theorem isLocal_decode (type : FieldType) : IsLocal (decode type) := by
  cases type with
  | number => exact (isLocal_pullNatural _).map number
  | text => exact isLocal_decodeText.map text
  | bytes => exact isLocal_decodeBytes.map bytes
  | attributes => exact isLocal_decodeAttributes.map attributes

end FieldValue

namespace Record

open Cbor

/-- Keys are read locally. -/
theorem isLocal_decodeKey : IsLocal decodeKey := by
  intro bytes key rest h more
  unfold decodeKey at h ⊢
  split at h
  · next len tail hpull =>
    split at h
    · next hlen =>
      simp only [isLocal_pullPast _ hpull more, if_pos hlen]
      exact isLocal_piece .text len h more
    · cases h
  · next len tail hpull =>
    split at h
    · next hlen =>
      simp only [isLocal_pullPast _ hpull more, if_pos hlen]
      exact isLocal_piece .bytes len h more
    · cases h
  · cases h

/-- A member of a map of fields is read without a look at what follows it, whether its field is
known or not. -/
theorem isLocal_decodeMember (fields : List (String × FieldType))
    (found : List (String × FieldValue)) : IsLocal (decodeMember fields found) := by
  intro bytes found' rest h more
  unfold decodeMember at h ⊢
  split at h
  · cases h
  next key tail hkey =>
  rw [isLocal_decodeKey hkey more]
  dsimp only
  split at h
  · next hunknown =>
    obtain ⟨tail', htail', heq⟩ := Option.map_eq_some_iff.mp h
    cases heq
    simp only [skipsLocally_skip _ htail' more, Option.map_some]
  · next name type hknown =>
    split at h
    · cases h
    · next hnew =>
      rw [if_neg hnew]
      exact (FieldValue.isLocal_decode type).map (fun value => (name, value) :: found) h more

/-! ## Payloads that lack their end -/

variable {r : Record} {front more : Bytes}

/-- No part of a body short of the whole can be read. -/
theorem decodeBody_of_cut (hr : r.fits = true) (hcut : front ++ more =
      head 5 r.kind.fields.length ++ encodeFields r.kind.fields r.values) (hmore : more ≠ []) :
    decodeBody r.kind front = none := by
  have hlen : r.kind.fields.length < Bytes.capacity 8 := (length_fields_key r.kind).1
  have hhead : pull (front ++ more) = some (.map (some r.kind.fields.length),
      encodeFields r.kind.fields r.values) := by
    rw [hcut, pull_head (by decide) hlen]
    rfl
  rcases isLocal_pull.of_append hhead with hnone | ⟨rest, hrest, hsplit⟩
  · rw [decodeBody, hnone]
  · have hmembers : repeatFor (decodeMember r.kind.fields) (some r.kind.fields.length) []
        (rest ++ more) = some ((r.members.map fun m => (m.1.1, m.2)).reverse, []) := by
      have hread := repeatTimes_decodeMember r.members (isMember_members hr) (nodup_members r) []
        (by simp) []
      rw [length_members, List.append_nil, List.append_nil, ← encodeFields_eq, hsplit] at hread
      exact hread
    have hlocal := IsLocal.repeatFor (isLocal_decodeMember r.kind.fields)
      (some r.kind.fields.length) []
    rcases hlocal.of_append hmembers with hnone | ⟨rest', -, hnil⟩
    · simp only [decodeBody, hrest, decodeMap, hnone, Option.bind_none]
    · exact absurd (List.append_eq_nil_iff.mp hnil.symm).2 hmore

/-- No part of a payload short of the whole can be read. -/
theorem decodeKeyed_of_cut (hr : r.fits = true) (hcut : front ++ more =
      (FieldValue.text r.kind.key).encode ++ (head 5 r.kind.fields.length ++
        encodeFields r.kind.fields r.values)) (hmore : more ≠ []) :
    decodeKeyed front = none := by
  have hkey := decodeKey_encode (length_fields_key r.kind).2
    (head 5 r.kind.fields.length ++ encodeFields r.kind.fields r.values)
  rw [← hcut] at hkey
  rcases isLocal_decodeKey.of_append hkey with hnone | ⟨rest, hrest, hsplit⟩
  · rw [decodeKeyed, hnone]
  · simp only [decodeKeyed, hrest, find_key]
    exact decodeBody_of_cut hr hsplit.symm hmore

/-- Of a payload that lacks its end no record is read. -/
theorem decodeAny_of_cut (hr : r.fits = true) (hcut : front ++ more = r.encodeFitting)
    (hmore : more ≠ []) : decodeAny front = none := by
  have hhead : pull (front ++ more) = some (.map (some 1), (FieldValue.text r.kind.key).encode ++
      (head 5 r.kind.fields.length ++ encodeFields r.kind.fields r.values)) := by
    rw [hcut, encodeFitting, List.append_assoc, List.append_assoc,
      pull_head (by decide) (by decide)]
    rfl
  rcases isLocal_pull.of_append hhead with hnone | ⟨rest, hrest, hsplit⟩
  · rw [decodeAny, hnone, pullPast_of_none hnone]
  · have hpast : pullPast (fun _ => false) front = some (.map (some 1), rest) := by
      refine pullPast_of_pull hrest ?_
      intro n htag
      cases htag
    rw [decodeAny, hrest, hpast]
    exact decodeKeyed_of_cut hr hsplit.symm hmore

/-- A record is encoded exactly if it fits, and as one payload only. -/
theorem encode_eq_ok_iff_fits {payload : Bytes} :
    r.encode = .ok payload ↔ r.fits = true ∧ payload = r.encodeFitting := by
  unfold encode
  split
  · next hfits => simp [hfits, eq_comm]
  · next hfits => simp [hfits]

/-- Every record whose numbers have 64 bits has a payload. Whatever bytes follow it, the payload is
read as the record where its kind is expected and is refused where another kind is. A part of it
that lacks the end is not read as anything. So it is the payload of no other record, and the
beginning of no other payload. -/
theorem encode_delimited (hr : r.fits = true) :
    ∃ payload, r.encode = .ok payload ∧
      (∀ junk, decode r.kind (payload ++ junk) = .ok r) ∧
      (∀ kind junk, kind ≠ r.kind → decode kind (payload ++ junk) = .error (.journalCorruption
        ("header says " ++ kind.name ++ " but payload is " ++ r.kind.name))) ∧
      (∀ kind front, front <+: payload → front ≠ payload →
        decode kind front = .error (.codec ("failed to decode " ++ kind.name))) ∧
      ∀ r' payload', encode r' = .ok payload' → payload <+: payload' →
        r' = r ∧ payload' = payload := by
  refine ⟨r.encodeFitting, encode_eq_ok_iff_fits.mpr ⟨hr, rfl⟩, ?_, ?_, ?_, ?_⟩
  · intro junk
    simp only [decode, decodeAny_encodeFitting hr, ↓reduceIte]
  · intro kind junk hkind
    simp only [decode, decodeAny_encodeFitting hr, if_neg hkind.symm]
  · rintro kind front ⟨more, hcut⟩ hfront
    have hmore : more ≠ [] := by
      rintro rfl
      exact hfront ((List.append_nil front).symm.trans hcut)
    rw [decode, decodeAny_of_cut hr hcut hmore]
  · rintro r' payload' hencode ⟨more, hmore⟩
    obtain ⟨hr', rfl⟩ := encode_eq_ok_iff_fits.mp hencode
    have hread := decodeAny_encodeFitting hr' []
    rw [List.append_nil, ← hmore, decodeAny_encodeFitting hr, Option.some.injEq] at hread
    subst hread
    exact ⟨rfl, rfl⟩

/-- The payload of an append with two attributes is told from all others. -/
theorem encode_delimited_of_append :
    let r := append 4 12 [0x70, 0x61, 0x79] [(.eventCount, 3), (⟨1, 2⟩, -1)]
    r.fits = true ∧ ∃ payload, encode r = .ok payload ∧
      (∀ junk, decode .append (payload ++ junk) = .ok r) ∧
      (∀ junk, decode .sealing (payload ++ junk) =
        .error (.journalCorruption "header says seal but payload is append")) ∧
      decode .append payload.dropLast = .error (.codec "failed to decode append") := by
  intro r
  have hr : r.fits = true := by decide
  obtain ⟨payload, hencode, hread, hrefused, hcut, -⟩ := encode_delimited hr
  have hlast : payload.dropLast ≠ payload := by
    obtain ⟨-, rfl⟩ := encode_eq_ok_iff_fits.mp hencode
    decide
  exact ⟨hr, payload, hencode, hread, fun junk => hrefused .sealing junk (by decide),
    hcut .append _ (List.dropLast_prefix payload) hlast⟩

end Record

end Segments
