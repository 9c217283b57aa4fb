import Segments.Checksum
import Segments.Journal.Payload

/-!
# Journal frames

A frame is `magic | version | kind | payload length | payload | checksum`; the checksum covers
all before it. Reading a frame has three outcomes: a record, a clean end where fewer bytes are
left than the frame asks for, or a fault.
-/

namespace Segments

namespace Frame

/-- The four bytes that open a frame. -/
def magic : Bytes := [0x53, 0x53, 0x4C, 0x47]

/-- The version that is written, and the highest that is read. -/
def version : Nat := 1

/-- Magic, version, kind and payload length. -/
def headerSize : Nat := 11

/-- The size of the checksum. -/
def checksumSize : Nat := 4

/-- A header for a payload of a kind and length. -/
def header (kind : RecordKind) (payloadLength : Nat) : Bytes :=
  magic ++ Bytes.littleEndian 2 version ++ Bytes.littleEndian 1 kind.code
    ++ Bytes.littleEndian 4 payloadLength

/-- Bytes followed by their checksum. -/
def withChecksum (body : Bytes) : Bytes :=
  body ++ Bytes.littleEndian 4 (Checksum.crc32 body).toNat

/-- The frame of a record. -/
def encode (r : Record) : Except SegmentError Bytes :=
  match r.encode with
  | .error e => .error e
  | .ok payload =>
    if payload.length < Bytes.capacity 4 then
      .ok (withChecksum (header r.kind payload.length ++ payload))
    else .error (.codec "journal record payload too large")

/-- What a header says: the kind and the payload length. -/
structure Announced where
  /-- The kind of record. -/
  kind : RecordKind
  /-- The length of the payload. -/
  payloadLength : Nat
  deriving DecidableEq, Repr

/-- The size of the whole frame that a header announces. -/
def Announced.frameSize (a : Announced) : Nat := headerSize + a.payloadLength + checksumSize

/-- Reads a header of the right size that starts at an offset of the journal. -/
def readHeader (offset : Nat) (bytes : Bytes) : Except SegmentError Announced :=
  if bytes.take 4 ≠ magic then
    .error (.journalCorruption s!"invalid magic at offset {offset}")
  else
    let found := Bytes.ofLittleEndian ((bytes.drop 4).take 2)
    if version < found then
      .error (.journalCorruption s!"unsupported version {found} at offset {offset}")
    else
      let code := Bytes.ofLittleEndian ((bytes.drop 6).take 1)
      match RecordKind.ofCode? code with
      | none => .error (.journalCorruption s!"unknown record type {code} at offset {offset}")
      | some kind => .ok ⟨kind, Bytes.ofLittleEndian ((bytes.drop 7).take 4)⟩

/-- Checks and decodes a whole frame, whose header announced a kind and a length. -/
def readWhole (a : Announced) (frame : Bytes) : Except SegmentError Record :=
  let body := frame.take (headerSize + a.payloadLength)
  let stored := UInt32.ofNat
    (Bytes.ofLittleEndian ((frame.drop (headerSize + a.payloadLength)).take checksumSize))
  let computed := Checksum.crc32 body
  if stored = computed then Record.decode a.kind (body.drop headerSize)
  else .error (.checksumMismatch stored computed)

/-- What is found where a frame should start. -/
inductive Found where
  /-- Fewer bytes than a whole frame. -/
  | torn
  /-- A frame that cannot be read. -/
  | fault (error : SegmentError)
  /-- A record, and the size of its frame. -/
  | record (r : Record) (size : Nat)
  deriving DecidableEq, Repr

/-- Reads the frame at the start of the bytes, which start at an offset of the journal. -/
def read (offset : Nat) (bytes : Bytes) : Found :=
  match Bytes.takeExactly headerSize bytes with
  | none => .torn
  | some (front, _) =>
    match readHeader offset front with
    | .error e => .fault e
    | .ok a =>
      match Bytes.takeExactly a.frameSize bytes with
      | none => .torn
      | some (frame, _) =>
        match readWhole a frame with
        | .error e => .fault e
        | .ok r => .record r a.frameSize

/-- A frame that was read lies within the bytes and is longer than its header. -/
theorem size_of_read {offset : Nat} {bytes : Bytes} {r : Record} {size : Nat}
    (h : read offset bytes = .record r size) : headerSize + checksumSize ≤ size ∧
      size ≤ bytes.length := by
  unfold read at h
  split at h
  · simp at h
  · split at h
    · simp at h
    · next a _ =>
      split at h
      · simp at h
      · next frame rest hf =>
        split at h
        · simp at h
        · simp only [Found.record.injEq] at h
          obtain ⟨_, rfl⟩ := h
          obtain ⟨rfl, hlen⟩ := Bytes.takeExactly_eq_some_iff.mp hf
          refine ⟨by simp only [Announced.frameSize]; omega, ?_⟩
          rw [List.length_append, hlen]
          omega

end Frame

end Segments
