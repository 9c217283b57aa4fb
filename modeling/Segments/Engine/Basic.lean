import Segments.Config
import Segments.Journal.Log
import Segments.Order.Pending
import Segments.Segment.Entry

/-!
# The engine

The engine is the state of an open store. Entries stay in it after their segment was deleted,
because operations and readers may still refer to them; such entries are not live. A segment is
found by its name only while it is live.
-/

namespace Segments

/-- The state of an open store. -/
structure Engine where
  /-- The configuration. -/
  config : Config
  /-- Every segment there has been since the store was opened, deleted ones included. -/
  entries : Table SegmentId Entry
  /-- The segment that each name stands for. -/
  names : Table String SegmentId
  /-- The number of the next segment. -/
  nextId : SegmentId
  /-- The journal. -/
  log : OperationLog
  /-- The attribute store. -/
  store : AttributeStore
  /-- The operations in flight. -/
  pending : Pending
  /-- Whether the store was shut down. -/
  closed : Bool
  /-- The reading of the clock, in milliseconds. -/
  clock : AttributeValue
  deriving DecidableEq

namespace Engine

/-- An engine without segments over a journal and an attribute store. -/
def new (config : Config) (journal : Bytes) (store : AttributeStore)
    (clock : AttributeValue) : Engine where
  config := config
  entries := .empty
  names := .empty
  nextId := 1
  log := .ofBytes journal config.syncOnCommit
  store := store
  pending := .empty
  closed := false
  clock := clock

instance : Inhabited Engine := ⟨new .standard [] .empty 0⟩

/-- The entry of a segment that was not deleted. -/
def live? (s : Engine) (id : SegmentId) : Option Entry :=
  match s.entries.get? id with
  | some e => if e.state = .deleted then none else some e
  | none => none

/-- The live segment that a name stands for. -/
def resolve? (s : Engine) (name : String) : Option Entry :=
  match s.names.get? name with
  | some id => s.live? id
  | none => none

/-- The live segment that a name stands for, or the error that there is none. -/
def resolve (s : Engine) (name : String) : Except SegmentError Entry :=
  match s.resolve? name with
  | some e => .ok e
  | none => .error (.segmentNotFound name)

/-- The entries that are live. -/
def liveEntries (s : Engine) : List Entry :=
  s.entries.values.filter fun e => decide (e.state ≠ .deleted)

/-- The names of all segments in their order. -/
def segmentNames (s : Engine) : List String :=
  s.names.keys.mergeSort fun a b => decide (a ≤ b)

/-- The engine with one entry changed. -/
def modifyEntry (s : Engine) (id : SegmentId) (f : Entry → Entry) : Engine :=
  { s with entries := s.entries.modify id f }

/-- The engine with the turns of one segment changed. -/
def modifyTurns (s : Engine) (id : SegmentId) (f : TurnLine → TurnLine) : Engine :=
  s.modifyEntry id fun e => { e with turns := f e.turns }

/-- Nothing, or the error that the store was shut down. -/
def requireOpen (s : Engine) : Except SegmentError Unit :=
  if s.closed then .error .storeClosed else .ok ()

/-- What callers are told about a segment. -/
def properties (s : Engine) (name : String) : Except SegmentError Properties :=
  match s.requireOpen with
  | .error e => .error e
  | .ok () =>
    match s.resolve name with
    | .error e => .error e
    | .ok entry =>
      if entry.state = .creating then .error (.segmentNotFound name)
      else .ok entry.metadata.properties

/-- Drops the extended attributes of a segment from memory and cancels its readers; tells how
many attributes were dropped. -/
def evict (s : Engine) (name : String) : Engine × List Event × Except SegmentError Nat :=
  match s.resolve name with
  | .error e => (s, [], .error e)
  | .ok entry =>
    let (attributes, count) := entry.metadata.attributes.evict
    let evicted := { entry with
      metadata := { entry.metadata with
        attributes, evictionEpoch := entry.metadata.evictionEpoch + 1 } }.publish
    ({ s with entries := s.entries.insert entry.id evicted },
      [⟨.info, "segment evicted",
        [("segment", .text name), ("evicted", .number count),
          ("open_readers", .number entry.readers)]⟩],
      .ok count)

/-- Offers the unstored attribute values of one segment to the store. -/
def writeThrough (s : Engine) (id : SegmentId) : Engine × List Event :=
  match s.entries.get? id with
  | none => (s, [])
  | some entry =>
    let (attributes, store, events) :=
      entry.metadata.attributes.writeThrough s.store id entry.name
    ({ s.modifyEntry id fun e => { e with metadata := { e.metadata with attributes } } with
      store }, events)

/-- Offers the unstored attribute values of several segments to the store. -/
def writeAllThrough (s : Engine) : List SegmentId → Engine × List Event
  | [] => (s, [])
  | id :: ids =>
    let (s', events) := s.writeThrough id
    let (s'', more) := s'.writeAllThrough ids
    (s'', events ++ more)

/-- The number of live segments with attribute values that the store has not taken. -/
def unstoredCount (s : Engine) : Nat :=
  (s.liveEntries.filter fun e => !e.metadata.attributes.unstored.isEmpty).length

/-- The report of segments whose attribute values are left to the next replay. -/
def unstoredEvents (count : Nat) : List Event :=
  if count = 0 then []
  else [⟨.warn, "attribute values left for replay to store", [("segments", .number count)]⟩]

/-- Shuts the store down: no more operations, a last try to store attribute values, and a
flush of the journal and the attribute store. -/
def shutdown (s : Engine) : Engine × List Event × Except SegmentError Unit :=
  if s.closed then (s, [], .ok ())
  else
    let (s, events) := { s with closed := true }.writeAllThrough (s.liveEntries.map Entry.id)
    let events := events ++ unstoredEvents s.unstoredCount
    match s.log.flush with
    | (log, .error e) => ({ s with log }, events, .error e)
    | (log, .ok ()) =>
      let s := { s with log }
      match s.store.flush with
      | .error e => (s, events, .error e)
      | .ok () =>
        (s, events ++ [⟨.info, "segment store shut down",
          [("segments", .number s.names.size)]⟩], .ok ())

/-- The structural form of an open store. -/
def form (s : Engine) : String :=
  s!"SegmentStore \x7b segments: {s.names.size}, closed: {s.closed}, .. \x7d"

/-- The structural form of the attribute side of a store. -/
def resolverForm (s : Engine) : String :=
  s!"AttributeResolver \x7b max_cached: {s.config.maxCachedAttributes}, .. \x7d"

end Engine

end Segments
