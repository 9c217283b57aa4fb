import Segments.Journal.Frame

/-!
# Scanning a journal

A scan reads frame after frame from the whole byte string. It ends cleanly where the bytes run
out, in the middle of a frame or not, and then points at the first byte of what is left; it ends
with an error at the first frame that cannot be read.
-/

namespace Segments

/-- What was found in a journal. -/
structure Scan where
  /-- The records, each with the offset of its frame. -/
  records : List (Nat × Record)
  /-- The offset just past the last record. -/
  position : Nat
  /-- The error that ended the scan, if it was not the end of the bytes. -/
  stop : Option SegmentError
  deriving DecidableEq, Repr

namespace Scan

/-- The scan with one more record in front. -/
def cons (entry : Nat × Record) (s : Scan) : Scan := { s with records := entry :: s.records }

/-- Scans the rest of a journal from an offset on. -/
def fromOffset (offset : Nat) (bytes : Bytes) : Scan :=
  match _h : Frame.read offset bytes with
  | .torn => ⟨[], offset, none⟩
  | .fault e => ⟨[], offset, some e⟩
  | .record r size => cons (offset, r) (fromOffset (offset + size) (bytes.drop size))
termination_by bytes.length
decreasing_by
  have := Frame.size_of_read _h
  simp only [List.length_drop, Frame.headerSize, Frame.checksumSize] at *
  omega

/-- Scans a whole journal. -/
def ofJournal (journal : Bytes) : Scan := fromOffset 0 journal

/-- All records, or the error that ended the scan. -/
def all (s : Scan) : Except SegmentError (List (Nat × Record)) :=
  match s.stop with
  | some e => .error e
  | none => .ok s.records

end Scan

/-- The end offset of each complete record of a journal; the last one is the size of all. -/
def recordEnds (journal : Bytes) : Except SegmentError (List Nat) :=
  match (Scan.ofJournal journal).all with
  | .error e => .error e
  | .ok [] => .ok []
  | .ok (_ :: later) => .ok (later.map Prod.fst ++ [journal.length])

end Segments
