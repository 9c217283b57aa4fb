import Segments.Journal.Scan
import Segments.Proofs.Payload

/-!
# Journals made of whole frames

A frame is read back with any bytes after it, and a strict prefix of a frame is torn. So a scan
of whole frames followed by torn bytes gives exactly the records of the frames, each at the
offset where its frame starts, and ends where the torn bytes begin.
-/

namespace Segments

/-- Whether a record can be written into a journal. -/
def Record.Framable (r : Record) : Prop :=
  r.fits = true ∧ r.encodeFitting.length < Bytes.capacity 4

namespace Frame

/-- The frame of a record that can be written. -/
def whole (r : Record) : Bytes :=
  withChecksum (header r.kind r.encodeFitting.length ++ r.encodeFitting)

/-- What the header of a record's frame says. -/
def announced (r : Record) : Announced := ⟨r.kind, r.encodeFitting.length⟩

/-- Exactly the records that can be written have a frame. -/
theorem encode_eq_ok_iff {r : Record} {frame : Bytes} :
    encode r = .ok frame ↔ r.Framable ∧ frame = whole r := by
  unfold encode Record.encode Record.Framable
  by_cases hf : r.fits = true
  · simp only [hf, ↓reduceIte, true_and]
    by_cases hl : r.encodeFitting.length < Bytes.capacity 4
    · simp only [hl, ↓reduceIte, Except.ok.injEq, true_and, whole]
      exact eq_comm
    · simp only [hl, ↓reduceIte, reduceCtorEq, false_and]
  · simp only [hf, Bool.false_eq_true, ↓reduceIte, reduceCtorEq, false_and]

/-- All headers are equally long. -/
@[simp] theorem length_header (k : RecordKind) (n : Nat) : (header k n).length = headerSize := by
  simp [header, magic, headerSize]

/-- A frame is as long as its header announces. -/
@[simp] theorem length_whole (r : Record) : (whole r).length = (announced r).frameSize := by
  simp only [whole, withChecksum, List.length_append, length_header, Bytes.length_littleEndian,
    announced, Announced.frameSize, checksumSize]

/-- A header is read back. -/
theorem readHeader_header {r : Record} (hr : r.Framable) (offset : Nat) :
    readHeader offset (header r.kind r.encodeFitting.length) = .ok (announced r) := by
  have hlen : r.encodeFitting.length % Bytes.capacity 4 = r.encodeFitting.length :=
    Nat.mod_eq_of_lt hr.2
  have hcode : r.kind.code % Bytes.capacity 1 = r.kind.code := by
    cases r <;> rfl
  have hmagic : (header r.kind r.encodeFitting.length).take 4 = magic := by
    simp [header, magic]
  have hversion : ((header r.kind r.encodeFitting.length).drop 4).take 2 =
      Bytes.littleEndian 2 version := by
    simp [header, magic]
  have hkind : ((header r.kind r.encodeFitting.length).drop 6).take 1 =
      Bytes.littleEndian 1 r.kind.code := by
    simp [header, magic]
  have hpayload : ((header r.kind r.encodeFitting.length).drop 7).take 4 =
      Bytes.littleEndian 4 r.encodeFitting.length := by
    have hfront : (Bytes.littleEndian 2 version).drop 3 = [] := by decide
    simp [header, magic, List.drop_append, hfront, List.take_of_length_le]
  have hone : ¬version < version % Bytes.capacity 2 := by decide
  simp only [readHeader, hmagic, ne_eq, not_true_eq_false, ↓reduceIte, hversion, hone, hkind,
    hpayload, Bytes.ofLittleEndian_littleEndian, hcode, hlen, RecordKind.ofCode?_code, announced]

/-- A whole frame passes its check and is decoded. -/
theorem readWhole_whole {r : Record} (hr : r.Framable) :
    readWhole (announced r) (whole r) = .ok r := by
  have hlen : (header r.kind r.encodeFitting.length ++ r.encodeFitting).length =
      headerSize + r.encodeFitting.length := by simp
  have hbody : (whole r).take (headerSize + r.encodeFitting.length) =
      header r.kind r.encodeFitting.length ++ r.encodeFitting := by
    rw [whole, withChecksum, ← hlen, List.take_left]
  have hsum : ((whole r).drop (headerSize + r.encodeFitting.length)).take checksumSize =
      Bytes.littleEndian 4 (Checksum.crc32
        (header r.kind r.encodeFitting.length ++ r.encodeFitting)).toNat := by
    rw [whole, withChecksum, ← hlen, List.drop_left]
    exact List.take_of_length_le (by simp [checksumSize])
  have hpayload : (header r.kind r.encodeFitting.length ++ r.encodeFitting).drop headerSize =
      r.encodeFitting := by
    rw [← length_header r.kind r.encodeFitting.length, List.drop_left]
  have hstored : UInt32.ofNat (Bytes.ofLittleEndian (Bytes.littleEndian 4 (Checksum.crc32
      (header r.kind r.encodeFitting.length ++ r.encodeFitting)).toNat)) =
      Checksum.crc32 (header r.kind r.encodeFitting.length ++ r.encodeFitting) := by
    rw [Bytes.ofLittleEndian_littleEndian, Nat.mod_eq_of_lt]
    · exact UInt32.ofNat_toNat
    · exact UInt32.toNat_lt _
  simp only [readWhole, announced, hbody, hsum, hstored, ↓reduceIte, hpayload]
  exact Record.decode_encodeFitting hr.1

/-- The header of a frame followed by any bytes. -/
theorem takeExactly_header (r : Record) (rest : Bytes) :
    ∃ tail, Bytes.takeExactly headerSize (whole r ++ rest) =
      some (header r.kind r.encodeFitting.length, tail) := by
  refine ⟨r.encodeFitting ++ (Bytes.littleEndian 4 (Checksum.crc32
    (header r.kind r.encodeFitting.length ++ r.encodeFitting)).toNat ++ rest), ?_⟩
  rw [Bytes.takeExactly_eq_some_iff, whole, withChecksum]
  exact ⟨by simp only [List.append_assoc], length_header _ _⟩

/-- A frame is read back with any bytes after it. -/
theorem read_whole {r : Record} (hr : r.Framable) (offset : Nat) (rest : Bytes) :
    read offset (whole r ++ rest) = .record r (whole r).length := by
  obtain ⟨tail, hheader⟩ := takeExactly_header r rest
  have hframe : Bytes.takeExactly (announced r).frameSize (whole r ++ rest) =
      some (whole r, rest) := by
    rw [← length_whole]
    exact Bytes.takeExactly_append _ _
  simp only [read, hheader, readHeader_header hr, hframe, readWhole_whole hr, length_whole]

/-- Bytes that a journal ends with when the write of a frame was cut short. -/
def Torn (rest : Bytes) : Prop :=
  ∃ r : Record, r.Framable ∧ rest <+: whole r ∧ rest.length < (whole r).length

/-- A journal may end with a record. -/
theorem torn_nil : Torn [] :=
  ⟨.delete 0, ⟨by decide, by decide⟩, List.nil_prefix, by
    rw [length_whole, Announced.frameSize, headerSize, List.length_nil]
    omega⟩

/-- The first byte of a frame may be all that was written. -/
theorem torn_singleton : Torn [0x53] :=
  ⟨.delete 0, ⟨by decide, by decide⟩, by decide, by decide⟩

/-- The beginning of a frame was cut short, or is the whole frame. -/
theorem torn_or_whole {r : Record} (hr : r.Framable) {rest : Bytes} (hrest : rest <+: whole r) :
    Torn rest ∨ rest = whole r := by
  by_cases hlt : rest.length < (whole r).length
  · exact Or.inl ⟨r, hr, hrest, hlt⟩
  · exact Or.inr (hrest.eq_of_length (Nat.le_antisymm hrest.length_le (Nat.le_of_not_lt hlt)))

/-- A frame that was cut short is not read. -/
theorem read_of_torn {rest : Bytes} (h : Torn rest) (offset : Nat) :
    read offset rest = .torn := by
  obtain ⟨r, hr, ⟨missing, hmissing⟩, hlt⟩ := h
  unfold read
  cases hfront : Bytes.takeExactly headerSize rest with
  | none => rfl
  | some pair =>
    obtain ⟨front, tail⟩ := pair
    obtain ⟨hrest, hfrontlen⟩ := Bytes.takeExactly_eq_some_iff.mp hfront
    have hheader : front = header r.kind r.encodeFitting.length := by
      have h1 : (whole r).take headerSize = front := by
        rw [← hmissing, hrest, List.append_assoc, ← hfrontlen, List.take_left]
      have h2 : (whole r).take headerSize = header r.kind r.encodeFitting.length := by
        rw [whole, withChecksum, List.append_assoc, ← length_header r.kind r.encodeFitting.length,
          List.take_left]
      rw [← h1, h2]
    have hshort : Bytes.takeExactly (announced r).frameSize rest = none := by
      rw [Bytes.takeExactly_eq_none_iff, ← length_whole]
      exact hlt
    simp only [hheader, readHeader_header hr, hshort]

/-- The frames of several records, one after another. -/
def wholes (rs : List Record) : Bytes := rs.flatMap whole

@[simp] theorem wholes_nil : wholes [] = [] := rfl

@[simp] theorem wholes_append (rs more : List Record) :
    wholes (rs ++ more) = wholes rs ++ wholes more := List.flatMap_append

@[simp] theorem wholes_singleton (r : Record) : wholes [r] = whole r := by simp [wholes]

end Frame

namespace Scan

/-- Records with the offsets of their frames, the first of which starts at an offset. -/
def placed : Nat → List Record → List (Nat × Record)
  | _, [] => []
  | offset, r :: rs => (offset, r) :: placed (offset + (Frame.whole r).length) rs

@[simp] theorem map_snd_placed (offset : Nat) (rs : List Record) :
    (placed offset rs).map Prod.snd = rs := by
  induction rs generalizing offset with
  | nil => rfl
  | cons r rs ih => simp [placed, ih]

/-- A scan goes on behind a record. -/
theorem fromOffset_of_read_record {offset size : Nat} {rest : Bytes} {r : Record}
    (h : Frame.read offset rest = .record r size) : fromOffset offset rest =
      cons (offset, r) (fromOffset (offset + size) (rest.drop size)) := by
  rw [fromOffset]
  split
  · next he => simp [h] at he
  · next he => simp [h] at he
  · next he =>
    rw [h, Frame.Found.record.injEq] at he
    obtain ⟨rfl, rfl⟩ := he
    rfl

/-- A frame in front of a journal adds its record in front of the scan. -/
theorem fromOffset_whole {r : Record} (hr : r.Framable) (offset : Nat) (rest : Bytes) :
    fromOffset offset (Frame.whole r ++ rest) =
      cons (offset, r) (fromOffset (offset + (Frame.whole r).length) rest) := by
  rw [fromOffset_of_read_record (Frame.read_whole hr offset rest), List.drop_left]

/-- Frames in front of a journal add their records in front of the scan. -/
theorem fromOffset_wholes {rs : List Record} (hrs : ∀ r ∈ rs, r.Framable) (offset : Nat)
    (rest : Bytes) :
    fromOffset offset (Frame.wholes rs ++ rest) =
      { fromOffset (offset + (Frame.wholes rs).length) rest with
        records := placed offset rs ++
          (fromOffset (offset + (Frame.wholes rs).length) rest).records } := by
  induction rs generalizing offset with
  | nil => simp [placed]
  | cons r rs ih =>
    have hr : r.Framable := hrs r List.mem_cons_self
    have hrs' : ∀ r' ∈ rs, r'.Framable := fun r' h => hrs r' (List.mem_cons_of_mem _ h)
    have hcons : Frame.wholes (r :: rs) = Frame.whole r ++ Frame.wholes rs := rfl
    rw [hcons, List.append_assoc, fromOffset_whole hr, ih hrs', List.length_append,
      ← Nat.add_assoc]
    rfl

/-- A scan ends cleanly where fewer bytes are left than a frame asks for. -/
theorem fromOffset_of_read_torn {offset : Nat} {rest : Bytes}
    (h : Frame.read offset rest = .torn) : fromOffset offset rest = ⟨[], offset, none⟩ := by
  rw [fromOffset]
  split
  · rfl
  · next he => simp [h] at he
  · next he => simp [h] at he

/-- A scan ends with an error at a frame that cannot be read. -/
theorem fromOffset_of_read_fault {offset : Nat} {rest : Bytes} {e : SegmentError}
    (h : Frame.read offset rest = .fault e) : fromOffset offset rest = ⟨[], offset, some e⟩ := by
  rw [fromOffset]
  split
  · next he => simp [h] at he
  · next he =>
    rw [h, Frame.Found.fault.injEq] at he
    rw [he]
  · next he => simp [h] at he

/-- Nothing is scanned of a torn end. -/
theorem fromOffset_of_torn {rest : Bytes} (h : Frame.Torn rest) (offset : Nat) :
    fromOffset offset rest = ⟨[], offset, none⟩ :=
  fromOffset_of_read_torn (Frame.read_of_torn h offset)

/-- A journal of whole frames and torn bytes scans to the records of the frames. -/
theorem ofJournal_wholes {rs : List Record} (hrs : ∀ r ∈ rs, r.Framable) {rest : Bytes}
    (h : Frame.Torn rest) :
    ofJournal (Frame.wholes rs ++ rest) = ⟨placed 0 rs, (Frame.wholes rs).length, none⟩ := by
  rw [ofJournal, fromOffset_wholes hrs, fromOffset_of_torn h]
  simp

end Scan

end Segments
