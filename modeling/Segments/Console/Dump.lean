import Segments.Console.Inspect
import Segments.Journal.Stream
import Segments.Storage.Memory

/-!
# Journal dumps

The records of a journal from an offset on, up to a limit, and the error at which the journal
ends if the limit was not reached before it.
-/

namespace Segments

/-- One record of a dump. -/
structure DumpEntry where
  /-- The offset in the journal. -/
  offset : Nat
  /-- The kind of record. -/
  kind : RecordKind
  /-- The segment that changes; the target of a merge. -/
  segment : SegmentId
  /-- The name of a new segment. -/
  name : Option String
  /-- The offset in the segment. -/
  segmentOffset : Option Nat
  /-- The number of bytes carried or moved. -/
  length : Option Nat
  /-- The source of a merge. -/
  source : Option SegmentId
  /-- The number of attribute values. -/
  attributes : Option Nat
  deriving DecidableEq, Repr

/-- Records of a journal, and why there are no more. -/
structure JournalDump where
  /-- The records in order. -/
  entries : List DumpEntry
  /-- The error that ended the dump. -/
  stop : Option SegmentError
  deriving DecidableEq, Repr

namespace DumpEntry

/-- An entry that tells only where a record is, of what kind, and whose. -/
def bare (offset : Nat) (r : Record) : DumpEntry :=
  ⟨offset, r.kind, r.segment, none, none, none, none, none⟩

/-- The entry of a record. -/
def ofRecord (offset : Nat) (r : Record) : DumpEntry :=
  match r with
  | .create _ name values =>
    { bare offset r with name := some name, attributes := some values.length }
  | .append _ at_ data values =>
    { bare offset r with
      segmentOffset := some at_, length := some data.length, attributes := some values.length }
  | .updateAttributes _ values => { bare offset r with attributes := some values.length }
  | .sealing _ length => { bare offset r with length := some length }
  | .merge _ source length at_ =>
    { bare offset r with source := some source, length := some length, segmentOffset := some at_ }
  | .truncate _ at_ => { bare offset r with segmentOffset := some at_ }
  | .delete _ => bare offset r

/-- A number with zeros in front of it up to eight digits. -/
def padded (n : Nat) : String :=
  let digits := toString n
  String.ofList (List.replicate (8 - digits.length) '0') ++ digits

/-- A word with blanks behind it up to 17 characters. -/
def column (word : String) : String :=
  word ++ String.ofList (List.replicate (17 - word.length) ' ')

/-- A field of a line, if there is one. -/
def field (label : String) : Option String → String
  | some value => " " ++ label ++ "=" ++ value
  | none => ""

/-- The line of an entry. -/
def line (e : DumpEntry) : String :=
  "[" ++ padded e.offset ++ "] " ++ column e.kind.name ++ s!" segment={e.segment}"
    ++ field "name" e.name
    ++ field "source" (e.source.map toString)
    ++ field "at" (e.segmentOffset.map toString)
    ++ field "length" (e.length.map toString)
    ++ field "attributes" (e.attributes.map toString)

/-- A member of a report, if there is one. -/
def member (label : String) : Option Nat → List (String × Json)
  | some n => [(label, .int n)]
  | none => []

/-- The report of an entry. -/
def json (e : DumpEntry) : Json :=
  let name := match e.name with
    | some s => [("name", Json.text s)]
    | none => []
  .object ([("offset", .int e.offset), ("record_type", .text e.kind.name),
    ("segment_id", .int e.segment)] ++ name ++ member "segment_offset" e.segmentOffset
    ++ member "length" e.length ++ member "source_id" e.source
    ++ member "attributes" e.attributes)

end DumpEntry

namespace JournalDump

/-- Whether there are as many entries as are wanted. -/
def enough (limit : Option Nat) (entries : List DumpEntry) : Bool :=
  limit.any fun n => decide (n ≤ entries.length)

/-- Goes on with a dump of the records that are still to come from a stream, for at most `fuel`
steps. A record is taken from the stream before it is seen that there are enough. -/
def select {σ : Type} [ByteStore σ] (limit : Option Nat) (start : Nat) :
    Nat → RecordStream σ → List DumpEntry → JournalDump
  | 0, _, entries => ⟨entries, none⟩
  | fuel + 1, s, entries =>
    match s.next with
    | (_, none) => ⟨entries, none⟩
    | (s, some item) =>
      if enough limit entries then ⟨entries, none⟩
      else match item with
        | .error e => ⟨entries, some e⟩
        | .ok (offset, r) =>
          if offset < start then select limit start fuel s entries
          else select limit start fuel s (entries ++ [.ofRecord offset r])

/-- The records of a journal from an offset on, at most `limit` of them. -/
def ofSource {σ : Type} [ByteStore σ] (source : σ) (limit : Option Nat) (start : Nat) :
    JournalDump :=
  select limit start (RecordStream.stepBound (ByteStore.size source)) (.ofSource source) []

/-- The lines of a dump. -/
def lines (d : JournalDump) : List String :=
  let stopped := match d.stop with
    | some e => ["", "Stopped: " ++ e.message]
    | none => []
  [s!"Journal Records ({d.entries.length} total)", "=====================", ""]
    ++ d.entries.map DumpEntry.line ++ stopped

/-- The report of a dump. -/
def json (d : JournalDump) : Json :=
  let stopped := match d.stop with
    | some e => [("error", Json.text e.message)]
    | none => []
  .object (("records", .list (d.entries.map DumpEntry.json)) :: stopped)

/-- The dump in a format. -/
def render (d : JournalDump) : OutputFormat → List String
  | .text => d.lines
  | .json => [d.json.pretty]

end JournalDump

end Segments
