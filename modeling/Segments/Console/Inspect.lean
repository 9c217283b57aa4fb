import Segments.Console.Snapshot
import Segments.Text.Json
import Segments.Text.Rounding

/-!
# Inspection

A summary of a store: the sizes of its files, the number of records and of stored attribute
values, and its segments in the order of their names.
-/

namespace Segments

/-- The summary of one segment. -/
structure SegmentSummary where
  /-- The description of the segment. -/
  properties : Properties
  /-- Whether the attributes are to be shown. -/
  shown : Bool
  deriving DecidableEq

/-- The summary of a store. -/
structure Inspection where
  /-- The path of the directory. -/
  path : String
  /-- The size of the journal. -/
  journalSize : Nat
  /-- The size of the index of stored attributes. -/
  attributesSize : Nat
  /-- The number of complete records. -/
  journalRecords : Nat
  /-- The number of stored attribute values. -/
  attributeEntries : Nat
  /-- The segments. -/
  segments : List SegmentSummary
  deriving DecidableEq

/-- How a command writes its result. -/
inductive OutputFormat where
  /-- Lines for people. -/
  | text
  /-- Indented JSON. -/
  | json
  deriving DecidableEq, Repr

namespace OutputFormat

/-- The format of a name; every name but one stands for lines. -/
def ofName (name : String) : OutputFormat := if name = "json" then json else text

end OutputFormat

namespace SegmentSummary

/-- The event count, if there is one. -/
def eventCount? (s : SegmentSummary) : Option AttributeValue :=
  s.properties.attribute? .eventCount

/-- The attributes to show, as texts and values in their order. -/
def attributes (s : SegmentSummary) : List (String × AttributeValue) :=
  if s.shown then
    (s.properties.attributes.map fun a => (a.1.text, a.2)).mergeSort fun a b =>
      decide (a.1 < b.1) || (a.1 == b.1 && decide (a.2 ≤ b.2))
  else []

/-- The stage of life in a word. -/
def state (s : SegmentSummary) : String :=
  if s.properties.merged then "merged" else if s.properties.sealed then "sealed" else "active"

/-- The lines about a segment. -/
def lines (s : SegmentSummary) : List String :=
  let p := s.properties
  let events := match s.eventCount? with
    | some n => s!" events={n.toInt}"
    | none => ""
  (s!"  [{p.id}] " ++ p.name ++ " " ++ s.state
      ++ s!" length={p.length} truncated_at={p.truncationOffset}" ++ events)
    :: s.attributes.map fun a => "      " ++ a.1 ++ s!" = {a.2.toInt}"

/-- The report about a segment. -/
def json (s : SegmentSummary) : Json :=
  let p := s.properties
  let events := match s.eventCount? with
    | some n => [("event_count", Json.int n.toInt)]
    | none => []
  let attributes :=
    if s.shown then
      [("attributes", Json.list (s.attributes.map fun a => .list [.text a.1, .int a.2.toInt]))]
    else []
  .object ([("name", .text p.name), ("id", .int p.id), ("length", .int p.length),
    ("truncation_offset", .int p.truncationOffset), ("sealed", .bool p.sealed),
    ("merged", .bool p.merged)] ++ events ++ attributes)

end SegmentSummary

namespace Inspection

/-- A size in bytes, or with one decimal in a larger unit. -/
def sizeText (bytes : Nat) : String :=
  let mebibyte := 1024 * 1024
  let gibibyte := 1024 * mebibyte
  if bytes < 1024 then s!"{bytes} bytes"
  else if bytes < mebibyte then Text.fixedDecimal 1 bytes 1024 ++ " KB"
  else if bytes < gibibyte then Text.fixedDecimal 1 bytes mebibyte ++ " MB"
  else Text.fixedDecimal 1 bytes gibibyte ++ " GB"

/-- Asks for the description of every segment of a store. -/
def summarize (s : Scheduler) (shown : Bool) : Except ConsoleError (List SegmentSummary) :=
  s.engine.segmentNames.mapM fun name =>
    match (s.call (.info name false) Scheduler.patience).2 with
    | .error e => .error (.argument e)
    | .ok (some (.error e)) => .error (.segment e)
    | .ok (some (.ok (.properties p))) => .ok ⟨p, shown⟩
    | .ok _ => .error (.segment (.segmentNotFound name))

/-- Summarizes the store of a snapshot. -/
def ofSnapshot (s : Snapshot) (shown : Bool) : Except ConsoleError Inspection := do
  let index ← s.openIndex.mapError .segment
  let store ← s.openStore.mapError .segment
  let segments ← summarize store shown
  pure ⟨s.path, s.journal.length, s.attributes.length, s.scan.records.length, index.index.size,
    segments⟩

/-- The lines of an inspection. -/
def lines (i : Inspection) : List String :=
  ["Segment Store Inspection",
    "========================",
    "",
    "Path: " ++ i.path,
    "",
    "Storage:",
    "  Journal size:    " ++ sizeText i.journalSize,
    "  Attribute index: " ++ sizeText i.attributesSize,
    "",
    "Records:",
    s!"  Journal records:   {i.journalRecords}",
    s!"  Attribute entries: {i.attributeEntries}",
    "",
    s!"Segments ({i.segments.length}):"] ++ i.segments.flatMap SegmentSummary.lines

/-- The report of an inspection. -/
def json (i : Inspection) : Json :=
  .object [("path", .text i.path), ("journal_size", .int i.journalSize),
    ("attributes_size", .int i.attributesSize), ("journal_records", .int i.journalRecords),
    ("attribute_entries", .int i.attributeEntries),
    ("segments", .list (i.segments.map SegmentSummary.json))]

/-- The inspection in a format. -/
def render (i : Inspection) : OutputFormat → List String
  | .text => i.lines
  | .json => [i.json.pretty]

end Inspection

end Segments
