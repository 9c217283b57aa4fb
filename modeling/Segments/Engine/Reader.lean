import Segments.Engine.Basic

/-!
# Readers

A reader delivers a range of a segment chunk by chunk, and waits at the end of a segment that
may still grow. It fails once the store is shut down, the segment is deleted, evicted or merged
away, or its position is truncated; after that, and after the last byte, it has ended.
-/

namespace Segments

/-- A read in progress. -/
structure Reader where
  /-- The segment. -/
  segment : SegmentId
  /-- The name of the segment. -/
  name : String
  /-- The offset of the next byte. -/
  position : Nat
  /-- The number of bytes still wanted. -/
  remaining : Nat
  /-- How often the segment had been evicted when the read began. -/
  evictionEpoch : Nat
  /-- Whether the read has ended. -/
  done : Bool
  deriving DecidableEq, Repr

/-- What one look at a reader gives. -/
inductive Poll where
  /-- The next bytes. -/
  | chunk (bytes : Bytes)
  /-- The read failed. -/
  | failed (error : SegmentError)
  /-- The read has ended. -/
  | ended
  /-- There is nothing to read yet. -/
  | waiting
  deriving DecidableEq, Repr

namespace Engine

/-- Begins a read of a live segment. -/
def openReader (s : Engine) (name : String) (offset maxLength : Nat) :
    Engine × Except SegmentError Reader :=
  match s.resolve name with
  | .error e => (s, .error e)
  | .ok entry =>
    let m := entry.metadata
    match m.state.requireReadable name with
    | .error e => (s, .error e)
    | .ok () =>
      if offset < m.truncationOffset then
        (s, .error (.segmentTruncated name offset m.truncationOffset))
      else if m.state.isSealed ∧ m.length < offset then
        (s, .error (.badOffset name offset (.sealedAt m.length)))
      else
        (s.modifyEntry entry.id fun e => { e with readers := e.readers + 1 },
          .ok ⟨entry.id, entry.name, offset, maxLength, m.evictionEpoch, false⟩)

/-- Ends a read. -/
def closeReader (s : Engine) (r : Reader) : Engine :=
  s.modifyEntry r.segment fun e => { e with readers := e.readers - 1 }

end Engine

namespace Reader

/-- Why a read cannot go on, given the published tail. -/
def obstacle? (r : Reader) (closed : Bool) (tail : Tail) : Option SegmentError :=
  if closed then some (.cancelled "segment store shut down")
  else if tail.deleted then some (.segmentNotFound r.name)
  else if tail.evictionEpoch ≠ r.evictionEpoch then
    some (.cancelled ("segment " ++ r.name ++ " was evicted"))
  else if tail.merged then some (.segmentMerged r.name)
  else if r.position < tail.truncationOffset then
    some (.segmentTruncated r.name r.position tail.truncationOffset)
  else none

/-- The bytes that are ready, at most one chunk of them. -/
def available (r : Reader) (entry : Entry) (chunkSize : Nat) : Except SegmentError Bytes :=
  if entry.published.length ≤ r.position then .ok []
  else
    let wanted := min (min (entry.published.length - r.position) r.remaining) (max chunkSize 1)
    match ByteStore.readAvailable (Memory.mk entry.data) r.position wanted with
    | .ok bytes => .ok bytes
    | .error e => .error (.storage e)

/-- The reader after it delivered some bytes. -/
def advance (r : Reader) (count : Nat) : Reader :=
  { r with
    position := r.position + count
    remaining := r.remaining - count
    done := decide (r.remaining ≤ count) }

/-- The report that a read failed. -/
def failure (r : Reader) (e : SegmentError) : Event :=
  ⟨.debug, "read ended with error",
    [("segment", .text r.name), ("position", .number r.position), ("error", .text e.message)]⟩

/-- Looks at a reader once. A reader that outlives the store fails where it would wait. -/
def next (r : Reader) (s : Engine) (dropped : Bool) : Reader × Poll × List Event :=
  if r.done then (r, .ended, [])
  else if r.remaining = 0 then ({ r with done := true }, .ended, [])
  else
    let entry := (s.entries.get? r.segment).getD default
    let failWith (e : SegmentError) : Reader × Poll × List Event :=
      ({ r with done := true }, .failed e, [r.failure e])
    match r.obstacle? s.closed entry.published with
    | some e => failWith e
    | none =>
      match r.available entry s.config.readChunkSize with
      | .error e => failWith e
      | .ok [] =>
        if entry.published.sealed then ({ r with done := true }, .ended, [])
        else if dropped then failWith (.cancelled "segment store dropped")
        else (r, .waiting, [])
      | .ok bytes => (r.advance bytes.length, .chunk bytes, [])

/-- Looks at a reader until it ends, fails or waits, at most `fuel` times; gives the chunks. -/
def drain (s : Engine) (dropped : Bool) :
    Nat → Reader → List Bytes → Reader × Poll × List Event
  | 0, r, _ => (r, .waiting, [])
  | fuel + 1, r, chunks =>
    match r.next s dropped with
    | (r, .chunk bytes, _) => drain s dropped fuel r (bytes :: chunks)
    | (r, .ended, events) => (r, .chunk chunks.reverse.flatten, events)
    | (r, other, events) => (r, other, events)

/-- Reads all that is left, unless the read fails or has to wait. -/
def toEnd (r : Reader) (s : Engine) (dropped : Bool) : Reader × Poll × List Event :=
  let entry := (s.entries.get? r.segment).getD default
  drain s dropped (entry.data.length + 2) r []

/-- The structural form of a reader. -/
def form (r : Reader) : String :=
  "ReadResult \x7b segment: " ++ Text.quoted r.name
    ++ s!", position: {r.position}, remaining: {r.remaining}, done: {r.done} \x7d"

end Reader

end Segments
