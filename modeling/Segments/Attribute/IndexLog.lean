import Segments.Attribute.Index
import Segments.Checksum
import Segments.Error
import Segments.Event
import Segments.Segment.State

/-!
# The log of the attribute index

The index is kept on a device as a log of changes, each 37 bytes long:
`kind | segment | attribute | value | checksum`. Opening the log replays it. A partial change
at its end was torn by a crash and is cut off; a change that cannot be read is an error.
-/

namespace Segments

/-- A change of the attribute index. -/
inductive IndexChange where
  /-- A value was stored, or erased. -/
  | put (segment : SegmentId) (id : AttributeId) (value : AttributeValue)
  /-- All values of a segment were erased. -/
  | removeSegment (segment : SegmentId)
  deriving DecidableEq, Repr

namespace IndexChange

/-- The size of a change without its checksum. -/
def bodySize : Nat := 33

/-- The size of a change. -/
def size : Nat := 37

/-- The change without its checksum. -/
def body : IndexChange → Bytes
  | put segment id value =>
    1 :: Bytes.littleEndian 8 segment ++ id.toBytes
      ++ Bytes.littleEndian 8 value.toUInt64.toNat
  | removeSegment segment => 2 :: Bytes.littleEndian 8 segment ++ List.replicate 24 0

/-- The 37 bytes of a change. -/
def encode (change : IndexChange) : Bytes :=
  change.body ++ Bytes.littleEndian 4 (Checksum.crc32 change.body).toNat

/-- The change that a body of the right size stands for. -/
def ofBody (body : Bytes) : Except SegmentError IndexChange :=
  let kind := Bytes.ofLittleEndian (body.take 1)
  let segment := Bytes.ofLittleEndian ((body.drop 1).take 8)
  if kind = 1 then
    match AttributeId.ofBytes? ((body.drop 9).take 16) with
    | some id =>
      .ok (.put segment id
        (UInt64.ofNat (Bytes.ofLittleEndian ((body.drop 25).take 8))).toInt64)
    | none => .error (.codec "attribute index record too short")
  else if kind = 2 then .ok (.removeSegment segment)
  else .error (.journalCorruption s!"unknown attribute index record kind {kind}")

/-- Checks and decodes 37 bytes. -/
def decode (bytes : Bytes) : Except SegmentError IndexChange :=
  let body := bytes.take bodySize
  let stored := UInt32.ofNat (Bytes.ofLittleEndian (bytes.drop bodySize))
  let computed := Checksum.crc32 body
  if stored = computed then ofBody body else .error (.checksumMismatch stored computed)

/-- Every whole change of a log, in order. -/
def decodeAll (log : Bytes) : Except SegmentError (List IndexChange) :=
  match _h : Bytes.takeExactly size log with
  | none => .ok []
  | some (front, rest) =>
    match decode front with
    | .error e => .error e
    | .ok change =>
      match decodeAll rest with
      | .error e => .error e
      | .ok changes => .ok (change :: changes)
termination_by log.length
decreasing_by
  obtain ⟨rfl, hlen⟩ := Bytes.takeExactly_eq_some_iff.mp _h
  simp only [List.length_append, hlen, size]
  omega

/-- What a change does to the index. -/
def apply (index : AttributeIndex) : IndexChange → AttributeIndex
  | put segment id value => index.set segment id value
  | removeSegment segment => index.removeSegment segment

end IndexChange

/-- An attribute index with its log. -/
structure IndexLog where
  /-- The log. -/
  log : Bytes
  /-- The index that the log stands for. -/
  index : AttributeIndex
  deriving DecidableEq

namespace IndexLog

/-- An empty index and its empty log. -/
def empty : IndexLog := ⟨[], .empty⟩

instance : Inhabited IndexLog := ⟨empty⟩

/-- Rebuilds the index from a log and cuts off a partial change. -/
def openLog (log : Bytes) : Except SegmentError (IndexLog × List Event) :=
  match IndexChange.decodeAll log with
  | .error e => .error e
  | .ok changes =>
    let kept := IndexChange.size * changes.length
    let index := changes.foldl IndexChange.apply .empty
    let torn := if kept < log.length then
        [⟨.warn, "discarding torn attribute index record",
          [("log_size", .number log.length), ("kept", .number kept)]⟩]
      else []
    .ok (⟨log.take kept, index⟩, torn ++
      [⟨.debug, "attribute index rebuilt",
        [("records", .number changes.length), ("segments", .number index.segmentCount)]⟩])

/-- Writes changes to the log and applies them. -/
def write (l : IndexLog) (changes : List IndexChange) : IndexLog :=
  ⟨l.log ++ changes.flatMap IndexChange.encode, changes.foldl IndexChange.apply l.index⟩

/-- Stores values of a segment. -/
def put (l : IndexLog) (segment : SegmentId) (values : AttributeValues) : IndexLog :=
  l.write (values.map fun v => .put segment v.1 v.2)

/-- Erases all values of a segment; nothing is written for a segment without values. -/
def removeSegment (l : IndexLog) (segment : SegmentId) : IndexLog :=
  if l.index.containsSegment segment then l.write [.removeSegment segment] else l

end IndexLog

end Segments
