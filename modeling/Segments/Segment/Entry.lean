import Segments.Order.TurnLine
import Segments.Segment.Metadata
import Segments.Text.Quoted

/-!
# A segment in the store

An entry owns all that belongs to one segment: the metadata, the bytes, the turns of the
operations that depend on its state, the tail last published to readers, and how many readers
there are.
-/

namespace Segments

/-- One segment of a store. -/
structure Entry where
  /-- The mutable state. -/
  metadata : Metadata
  /-- The bytes. -/
  data : Bytes
  /-- The turns of operations that depend on the state. -/
  turns : TurnLine
  /-- The tail last published. -/
  published : Tail
  /-- How often a tail was published. -/
  publications : Nat
  /-- The number of open readers. -/
  readers : Nat
  deriving DecidableEq

/-- A reader's knowledge of the published tails: how many of them it has seen. -/
structure TailWatch where
  /-- The number of publications seen. -/
  seen : Nat
  deriving DecidableEq, Repr

namespace Tail

/-- The structural form of a tail. -/
def form (t : Tail) : String :=
  s!"TailState \x7b length: {t.length}, sealed: {t.sealed}, truncation_offset: " ++
    s!"{t.truncationOffset}, merged: {t.merged}, deleted: {t.deleted}, eviction_epoch: " ++
    s!"{t.evictionEpoch} \x7d"

end Tail

namespace Entry

/-- An entry without bytes. -/
def ofMetadata (m : Metadata) : Entry where
  metadata := m
  data := []
  turns := .empty
  published := m.tail
  publications := 0
  readers := 0

instance : Inhabited Entry := ⟨ofMetadata default⟩

/-- The number of the segment. -/
def id (e : Entry) : SegmentId := e.metadata.id

/-- The name of the segment. -/
def name (e : Entry) : String := e.metadata.name

/-- The stage of life of the segment. -/
def state (e : Entry) : SegmentState := e.metadata.state

/-- Tells readers the present tail. -/
def publish (e : Entry) : Entry :=
  { e with published := e.metadata.tail, publications := e.publications + 1 }

/-- A watch that has seen what is published now. -/
def watch (e : Entry) : TailWatch := ⟨e.publications⟩

/-- Whether something was published that a watch has not seen. -/
def hasChanged (e : Entry) (w : TailWatch) : Bool := decide (w.seen < e.publications)

/-- The structural form of an entry. -/
def form (e : Entry) : String :=
  "SegmentEntry \x7b id: SegmentId(" ++ toString e.id ++ "), name: " ++ Text.quoted e.name
    ++ ", tail: " ++ e.published.form ++ ", .. \x7d"

end Entry

end Segments
