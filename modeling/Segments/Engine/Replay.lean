import Segments.Engine.Basic

/-!
# Replay

Opening a store replays its journal. `Replayed.step` takes in one record and refuses one that
contradicts the state so far. Extended attribute values are collected aside; once the whole
journal is read, a torn tail is cut off, and the attribute store is brought in line with what
was collected. Until then nothing is written, so that a journal that cannot be replayed leaves
everything as it was.
-/

namespace Segments

/-- The state that a journal stands for, as far as it was read. -/
structure Replayed where
  /-- Every segment that was created, deleted ones included. -/
  entries : Table SegmentId Entry
  /-- The segment that each name stands for. -/
  names : Table String SegmentId
  /-- The number of the next segment. -/
  nextId : SegmentId
  /-- The last extended values of segments that were not released since. -/
  extended : Table (SegmentId × AttributeId) AttributeValue
  /-- The segments that were merged away or deleted. -/
  released : List SegmentId
  deriving DecidableEq

namespace Replayed

/-- Nothing was read yet. -/
def start : Replayed := ⟨.empty, .empty, 1, .empty, []⟩

instance : Inhabited Replayed := ⟨start⟩

/-- A contradiction in the journal. -/
def contradiction {α : Type} (message : String) : Except SegmentError α :=
  .error (.journalCorruption message)

/-- The entry of a segment that was not deleted. -/
def entry (r : Replayed) (id : SegmentId) : Except SegmentError Entry :=
  match r.entries.get? id with
  | some e =>
    if e.state = .deleted then contradiction ("unknown segment " ++ id.text) else .ok e
  | none => contradiction ("unknown segment " ++ id.text)

/-- Core values go into the cache of the segment. -/
def withCore (m : Metadata) (values : AttributeValues) : Metadata :=
  { m with
    attributes := { m.attributes with
      cache := (values.filter fun v => v.1.isCore).foldl (fun c v => c.set v.1 v.2)
        m.attributes.cache } }

/-- Extended values are collected; the last one of each attribute counts. -/
def collect (extended : Table (SegmentId × AttributeId) AttributeValue) (id : SegmentId)
    (values : AttributeValues) : Table (SegmentId × AttributeId) AttributeValue :=
  (values.filter fun v => v.1.isExtended).foldl (fun t v => t.insert (id, v.1) v.2) extended

/-- The state with an entry put in place and attribute values taken in. -/
def withEntry (r : Replayed) (e : Entry) (values : AttributeValues) : Replayed :=
  { r with
    entries := r.entries.insert e.id { e with metadata := withCore e.metadata values }
    extended := collect r.extended e.id values }

/-- The sum of two numbers as numbers of 64 bits are added: past the last one it goes on from zero.
(A build that checks its additions stops there instead, and opens no store.) The things that are
held in memory are always fewer than the numbers, and so is what is added. -/
def sum (held a b : Nat) : Nat :=
  (a + b) % max (Bytes.capacity 8) (max held (max a b) + 1)

/-- The entry with bytes at its end, and longer by what is said to be their number. -/
def grown (e : Entry) (data : Bytes) (count : Nat) : Entry :=
  { e with
    data := e.data ++ data
    metadata := { e.metadata with
      length := sum (e.data ++ data).length e.metadata.length count } }

/-- The state in which a segment has been released. -/
def release (r : Replayed) (id : SegmentId) : Replayed :=
  { r with
    extended := r.extended.filter fun key _ => decide (key.1 ≠ id)
    released := if id ∈ r.released then r.released else r.released ++ [id] }

/-- Takes in the creation of a segment. The number of the next one is, at the least, one more. -/
def create (r : Replayed) (id : SegmentId) (name : String) (values : AttributeValues) :
    Except SegmentError Replayed :=
  if r.names.contains name then contradiction ("segment " ++ name ++ " created twice")
  else
    let fresh := Entry.ofMetadata { Metadata.new id name with state := .active }
    .ok { r.withEntry fresh values with
      names := r.names.insert name id
      -- as long as numbers are given out in order, the next one counts the segments and itself
      nextId := max r.nextId (sum (r.entries.size + 2) id 1) }

/-- Takes in an append, which must be at the length of an active segment. -/
def append (r : Replayed) (id : SegmentId) (offset : Nat) (data : Bytes)
    (values : AttributeValues) : Except SegmentError Replayed :=
  match r.entry id with
  | .error e => .error e
  | .ok e =>
    if e.state = .active ∧ e.metadata.length = offset then
      .ok (r.withEntry (grown e data data.length) values)
    else contradiction (s!"append at {offset} to " ++ e.state.name ++ " segment " ++ id.text
      ++ s!" of length {e.metadata.length}")

/-- Takes in a change of attributes. -/
def updateAttributes (r : Replayed) (id : SegmentId) (values : AttributeValues) :
    Except SegmentError Replayed :=
  match r.entry id with
  | .error e => .error e
  | .ok e => .ok (r.withEntry e values)

/-- Takes in a sealing, which must be at the length of the segment. -/
def sealing (r : Replayed) (id : SegmentId) (length : Nat) : Except SegmentError Replayed :=
  match r.entry id with
  | .error e => .error e
  | .ok e =>
    if e.metadata.length = length then
      .ok { r with entries :=
        r.entries.insert id { e with metadata := { e.metadata with state := .sealed } } }
    else contradiction ("seal of " ++ id.text
      ++ s!" at {length} but length is {e.metadata.length}")

/-- Takes in a merge, which must be between two segments of the recorded lengths. -/
def merge (r : Replayed) (target source : SegmentId) (sourceLength targetOffset : Nat) :
    Except SegmentError Replayed :=
  if target = source then contradiction ("segment " ++ source.text ++ " merged into itself")
  else
    match r.entry target, r.entry source with
    | .error e, _ => .error e
    | .ok _, .error e => .error e
    | .ok t, .ok s =>
      if t.metadata.length = targetOffset ∧ s.metadata.length = sourceLength then
        let t := grown t (s.data.take sourceLength) sourceLength
        let s := { s with
          data := []
          metadata := { s.metadata with
            state := .merged
            mergedInto := some target
            attributes := { s.metadata.attributes with
              cache := s.metadata.attributes.cache.clear } } }
        .ok ({ r with entries := (r.entries.insert target t).insert source s }.release source)
      else contradiction ("merge of " ++ source.text ++ " into " ++ target.text
        ++ " does not match replayed lengths")

/-- Takes in a truncation, which must be within the length. -/
def truncate (r : Replayed) (id : SegmentId) (offset : Nat) : Except SegmentError Replayed :=
  match r.entry id with
  | .error e => .error e
  | .ok e =>
    if offset ≤ e.metadata.length then
      .ok { r with entries :=
        r.entries.insert id { e with metadata := { e.metadata with truncationOffset := offset } } }
    else contradiction ("truncate of " ++ id.text
      ++ s!" at {offset} beyond length {e.metadata.length}")

/-- Takes in a deletion. -/
def delete (r : Replayed) (id : SegmentId) : Except SegmentError Replayed :=
  match r.entry id with
  | .error e => .error e
  | .ok e =>
    .ok ({ r with
      entries := r.entries.insert id { e with metadata := { e.metadata with state := .deleted } }
      names := r.names.erase e.name }.release id)

/-- Takes in one record. -/
def step (r : Replayed) : Record → Except SegmentError Replayed
  | .create id name values => r.create id name values
  | .append id offset data values => r.append id offset data values
  | .updateAttributes id values => r.updateAttributes id values
  | .sealing id length => r.sealing id length
  | .merge target source sourceLength targetOffset =>
    r.merge target source sourceLength targetOffset
  | .truncate id offset => r.truncate id offset
  | .delete id => r.delete id

/-- A contradiction, with the offset of the record where it was found. -/
def located (offset : Nat) : SegmentError → SegmentError
  | .journalCorruption message =>
    .journalCorruption (s!"record at offset {offset}: " ++ message)
  | other => other

/-- The report that a record was taken in. -/
def stepEvents : Record → List Event
  | .create id name _ =>
    [⟨.debug, "replayed create", [("segment", .text name), ("id", .text id.text)]⟩]
  | _ => []

/-- Takes in records in order, up to the first contradiction. -/
def steps (r : Replayed) : List (Nat × Record) → List Event × Except SegmentError Replayed
  | [] => ([], .ok r)
  | (offset, record) :: rest =>
    match r.step record with
    | .error e => ([], .error (located offset e))
    | .ok r' =>
      let (events, result) := r'.steps rest
      (stepEvents record ++ events, result)

/-- The state that the records of a scan stand for. -/
def ofScan (scan : Scan) : List Event × Except SegmentError Replayed :=
  match start.steps scan.records with
  | (events, .error e) => (events, .error e)
  | (events, .ok r) =>
    match scan.stop with
    | some e => (events, .error e)
    | none => (events, .ok r)

/-- The segments with collected values. -/
def extendedSegments (r : Replayed) : List SegmentId :=
  (r.extended.keys.map Prod.fst).eraseDups

/-- The collected values of a segment. -/
def extendedOf (r : Replayed) (id : SegmentId) : AttributeValues :=
  (r.extended.entries.filter fun e => e.1.1 == id).map fun e => (e.1.2, e.2)

/-- The collected values of a segment that the store does not agree with. -/
def stale (r : Replayed) (store : AttributeStore) (id : SegmentId) : AttributeValues :=
  (r.extendedOf id).filter fun v => decide ((store.get? id v.1).getD nullValue ≠ v.2)

end Replayed

namespace AttributeStore

/-- Erases the values of segments that are gone. -/
def removeAll (s : AttributeStore) : List SegmentId → AttributeStore × Except SegmentError Unit
  | [] => (s, .ok ())
  | id :: ids =>
    match s.removeSegment id with
    | (s', .error e) => (s', .error e)
    | (s', .ok ()) => s'.removeAll ids

/-- The report that values of a segment are repaired. -/
def repairEvent (id : SegmentId) (count : Nat) : Event :=
  ⟨.debug, "repairing attribute store",
    [("segment", .text id.text), ("values", .number count)]⟩

/-- Stores the values of segments that the store does not agree with; tells how many. -/
def repair (s : AttributeStore) (r : Replayed) :
    List SegmentId → AttributeStore × List Event × Except SegmentError Nat
  | [] => (s, [], .ok 0)
  | id :: ids =>
    match r.stale s id with
    | [] => s.repair r ids
    | values =>
      match s.put id values with
      | (s', .error e) => (s', [repairEvent id values.length], .error e)
      | (s', .ok ()) =>
        match s'.repair r ids with
        | (s'', events, result) =>
          (s'', repairEvent id values.length :: events, result.map (values.length + ·))

/-- The report that the store was behind the journal. -/
def behindEvents (repaired : Nat) : List Event :=
  if repaired = 0 then []
  else [⟨.warn, "attribute store was behind the journal", [("values", .number repaired)]⟩]

/-- Brings the store in line with a replayed journal; tells how many values
were repaired. -/
def reconcile (s : AttributeStore) (r : Replayed) :
    AttributeStore × List Event × Except SegmentError Nat :=
  match s.removeAll r.released with
  | (s, .error e) => (s, [], .error e)
  | (s, .ok ()) =>
    match s.repair r r.extendedSegments with
    | (s, events, .error e) => (s, events, .error e)
    | (s, events, .ok n) => (s, events ++ behindEvents n, .ok n)

end AttributeStore

/-- What opening a store leaves behind, whether it succeeds or not. -/
structure Opening where
  /-- The journal. -/
  journal : Bytes
  /-- The attribute store. -/
  store : AttributeStore
  /-- What was reported. -/
  events : List Event
  /-- The open store, or why it could not be opened. -/
  result : Except SegmentError Engine

namespace Engine

/-- The engine in the state that a journal stands for. -/
def ofReplayed (config : Config) (journal : Bytes) (store : AttributeStore)
    (clock : AttributeValue) (r : Replayed) : Engine :=
  { Engine.new config journal store clock with
    entries := ⟨r.entries.entries.map fun e => (e.1, e.2.publish), by
      have h : (r.entries.entries.map fun e => (e.1, e.2.publish)).map Prod.fst
          = r.entries.entries.map Prod.fst := by
        rw [List.map_map]
        rfl
      rw [h]
      exact r.entries.nodup⟩
    names := r.names
    nextId := r.nextId }

/-- The report that a torn tail is cut off. -/
def tornEvents (size valid : Nat) : List Event :=
  if valid < size then
    [⟨.warn, "discarding torn journal tail",
      [("journal_size", .number size), ("valid_end", .number valid)]⟩]
  else []

/-- The report of a store that was opened. -/
def openedEvent (records segments truncated repaired : Nat) : Event :=
  ⟨.info, "segment store opened",
    [("records", .number records), ("segments", .number segments),
      ("truncated_bytes", .number truncated), ("repaired_attributes", .number repaired)]⟩

/-- Opens a store over a journal and an attribute store. -/
def openStore (config : Config) (journal : Bytes) (store : AttributeStore)
    (clock : AttributeValue) : Opening :=
  let scan := Scan.ofJournal journal
  match Replayed.ofScan scan with
  | (events, .error e) => ⟨journal, store, events, .error e⟩
  | (events, .ok r) =>
    let events := events ++ tornEvents journal.length scan.position
    let kept := journal.take scan.position
    match store.reconcile r with
    | (store, repairs, .error e) => ⟨kept, store, events ++ repairs, .error e⟩
    | (store, repairs, .ok repaired) =>
      ⟨kept, store,
        events ++ repairs ++ [openedEvent scan.records.length r.names.size
          (journal.length - scan.position) repaired],
        .ok (ofReplayed config kept store clock r)⟩

end Engine

end Segments
