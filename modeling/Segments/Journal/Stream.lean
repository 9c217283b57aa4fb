import Segments.Journal.Scan
import Segments.Storage.Basic

/-!
# Scanning a journal through a buffer

The stream reads a journal from a byte store through a buffer of 64 KiB, so that a long journal
is never in memory as a whole. The buffer slides: unread bytes move to its front before it is
filled up, and it grows when one record is larger than it.
-/

namespace Segments

/-- A scan in progress. -/
structure RecordStream (σ : Type) where
  /-- The byte store read from. -/
  source : σ
  /-- The size of the journal when the scan began. -/
  total : Nat
  /-- The offset just past the last record. -/
  position : Nat
  /-- The buffer, used and unused parts together. -/
  buffer : Bytes
  /-- Where the unread bytes start in the buffer. -/
  start : Nat
  /-- Where the unread bytes end in the buffer. -/
  filled : Nat
  /-- Whether the scan has ended. -/
  finished : Bool

namespace RecordStream

/-- The size of the buffer at the beginning. -/
def bufferSize : Nat := 64 * 1024

variable {σ : Type} [ByteStore σ]

/-- A scan from the beginning of a byte store. -/
def ofSource (source : σ) : RecordStream σ where
  source := source
  total := ByteStore.size source
  position := 0
  buffer := List.replicate bufferSize 0
  start := 0
  filled := 0
  finished := false

/-- A number of bytes of the buffer from an index on. -/
def window (s : RecordStream σ) (index len : Nat) : Bytes := (s.buffer.drop index).take len

/-- The buffer with bytes written over it from an index on. -/
def overwrite (buffer : Bytes) (index : Nat) (bytes : Bytes) : Bytes :=
  buffer.take index ++ bytes ++ buffer.drop (index + bytes.length)

/-- The stream with its unread bytes at the front of the buffer. -/
def compact (s : RecordStream σ) : RecordStream σ :=
  { s with
    buffer := overwrite s.buffer 0 (s.window s.start (s.filled - s.start))
    start := 0
    filled := s.filled - s.start }

/-- The least power of two that is not below a number. -/
def roundUp (n : Nat) : Nat := if n ≤ 1 then 1 else 1 <<< ((n - 1).log2 + 1)

theorem le_roundUp (n : Nat) : n ≤ roundUp n := by
  unfold roundUp
  have hlog : n - 1 < 1 <<< ((n - 1).log2 + 1) := by
    rw [Nat.one_shiftLeft]
    exact Nat.lt_log2_self
  split <;> omega

/-- The stream with room for so many bytes. -/
def grow (s : RecordStream σ) (len : Nat) : RecordStream σ :=
  if s.buffer.length < len then
    { s with buffer := s.buffer ++ List.replicate (roundUp len - s.buffer.length) 0 }
  else s

/-- The stream with its buffer filled up from the byte store. -/
def fill (s : RecordStream σ) : Except SegmentError (RecordStream σ) :=
  let wanted := min (s.total - s.position - s.filled) (s.buffer.length - s.filled)
  if wanted = 0 then .ok s
  else match ByteStore.readAt s.source (s.position + s.filled) wanted with
    | .error e => .error (.storage e)
    | .ok bytes =>
      .ok { s with
        buffer := overwrite s.buffer s.filled bytes
        filled := s.filled + bytes.length }

/-- Makes so many unread bytes ready in the buffer; tells whether the journal has them. -/
def ensure (s : RecordStream σ) (len : Nat) : Except SegmentError (RecordStream σ × Bool) :=
  if len ≤ s.filled - s.start then .ok (s, true)
  else if s.total - s.position < len then .ok (s, false)
  else
    match (s.compact.grow len).fill with
    | .error e => .error e
    | .ok s' => .ok (s', decide (len ≤ s'.filled - s'.start))

/-- One step of a scan: the stream after it, and a record, the clean end, or an error. -/
def step (s : RecordStream σ) : RecordStream σ × Except SegmentError (Option (Nat × Record)) :=
  match s.ensure Frame.headerSize with
  | .error e => (s, .error e)
  | .ok (s, false) => (s, .ok none)
  | .ok (s, true) =>
    match Frame.readHeader s.position (s.window s.start Frame.headerSize) with
    | .error e => (s, .error e)
    | .ok a =>
      match s.ensure a.frameSize with
      | .error e => (s, .error e)
      | .ok (s, false) => (s, .ok none)
      | .ok (s, true) =>
        match Frame.readWhole a (s.window s.start a.frameSize) with
        | .error e => (s, .error e)
        | .ok r =>
          ({ s with start := s.start + a.frameSize, position := s.position + a.frameSize },
            .ok (some (s.position, r)))

/-- The next record or error; nothing once the scan has ended. -/
def next (s : RecordStream σ) :
    RecordStream σ × Option (Except SegmentError (Nat × Record)) :=
  if s.finished then (s, none)
  else match s.step with
    | (s, .ok (some entry)) => (s, some (.ok entry))
    | (s, .ok none) => ({ s with finished := true }, none)
    | (s, .error e) => ({ s with finished := true }, some (.error e))

/-- At most `fuel` records, then the scan's end. -/
def drain : Nat → RecordStream σ → RecordStream σ × Scan
  | 0, s => (s, ⟨[], s.position, none⟩)
  | fuel + 1, s =>
    match s.next with
    | (s, none) => (s, ⟨[], s.position, none⟩)
    | (s, some (.error e)) => (s, ⟨[], s.position, some e⟩)
    | (s, some (.ok entry)) =>
      let (s', scan) := drain fuel s
      (s', scan.cons entry)

/-- The most steps that a scan can take: a record has at least 15 bytes. -/
def stepBound (total : Nat) : Nat := total / (Frame.headerSize + Frame.checksumSize) + 1

/-- Scans a byte store to its end; gives the stream after it too. -/
def scan (source : σ) : RecordStream σ × Scan :=
  drain (stepBound (ByteStore.size source)) (ofSource source)

end RecordStream

end Segments
