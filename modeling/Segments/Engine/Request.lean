import Segments.Attribute.Batch
import Segments.Config
import Segments.Journal.Record
import Segments.Segment.Name

/-!
# Requests

What callers ask of a store. A request is checked before it is accepted; the checks come in a
fixed order, and the first one that fails is reported.
-/

namespace Segments

/-- What a caller asks for. -/
inductive Request where
  /-- Create a segment with first attribute values. -/
  | create (name : String) (updates : List Update)
  /-- Append at the end. -/
  | append (name : String) (data : Bytes) (updates : List Update)
  /-- Append if the length is as expected. -/
  | appendAt (name : String) (offset : Nat) (data : Bytes) (updates : List Update)
  /-- Change attributes. -/
  | update (name : String) (updates : List Update)
  /-- Look attributes up, and keep what was found in memory if asked to. -/
  | lookup (name : String) (ids : List AttributeId) (cache : Bool)
  /-- Begin a read. -/
  | read (name : String) (offset maxLength : Nat)
  /-- Describe a segment, after the operations accepted before if asked to. -/
  | info (name : String) (wait : Bool)
  /-- Move a sealed segment to the end of another. -/
  | merge (target source : String)
  /-- Make the length final. -/
  | sealing (name : String)
  /-- Remove a segment. -/
  | delete (name : String)
  /-- Raise the lowest readable offset. -/
  | truncate (name : String) (offset : Nat)
  deriving DecidableEq, Repr

namespace Request

/-- The name of the operation in reports. -/
def operation : Request → String
  | create .. => "create_stream_segment"
  | append .. | appendAt .. => "append"
  | update .. => "update_attributes"
  | lookup .. => "get_attributes"
  | read .. => "read"
  | info .. => "get_stream_segment_info"
  | merge .. => "merge_stream_segment"
  | sealing _ => "seal_stream_segment"
  | delete _ => "delete_stream_segment"
  | truncate .. => "truncate_stream_segment"

/-- The names of the segments that a request concerns. -/
def names : Request → List String
  | merge target source => [target, source]
  | create name _ | append name _ _ | appendAt name _ _ _ | update name _ | lookup name _ _
  | read name _ _ | info name _ | sealing name | delete name | truncate name _ => [name]

/-- The largest offset. -/
def maxOffset : Nat := Bytes.capacity 8 / 2 - 1

/-- Checks an offset. -/
def checkOffset (offset : Nat) : Except ArgumentError Unit :=
  if maxOffset < offset then .error (.offsetOutOfRange offset) else .ok ()

/-- Checks that no attribute occurs twice. -/
def checkUpdates (updates : List Update) : Except ArgumentError Unit :=
  match Batch.firstRepeated? [] updates with
  | some id => .error (.duplicateAttribute id)
  | none => .ok ()

/-- Checks the size of a payload. -/
def checkPayload (config : Config) (data : Bytes) : Except ArgumentError Unit :=
  if config.maxAppendLength < data.length then
    .error (.appendTooLarge data.length config.maxAppendLength)
  else .ok ()

/-- Checks names one after another. -/
def checkNames (config : Config) : List String → Except ArgumentError Unit
  | [] => .ok ()
  | name :: names =>
    match SegmentName.validate name config.maxNameLength with
    | .error e => .error e
    | .ok () => checkNames config names

/-- The checks that are particular to a kind of request. -/
def checkDetails (config : Config) : Request → Except ArgumentError Unit
  | create _ updates | update _ updates => checkUpdates updates
  | append _ data updates => do
    checkPayload config data
    checkUpdates updates
  | appendAt _ offset data updates => do
    checkOffset offset
    checkPayload config data
    checkUpdates updates
  | read _ offset maxLength => do
    checkOffset offset
    if maxLength = 0 then .error .zeroReadLength
  | truncate _ offset => checkOffset offset
  | merge target source => if target = source then .error (.selfMerge target) else .ok ()
  | lookup .. | info .. | sealing _ | delete _ => .ok ()

/-- Checks a request with its timeout in nanoseconds. -/
def validate (config : Config) (r : Request) (timeout : Nat) : Except ArgumentError Unit := do
  checkNames config r.names
  if timeout = 0 then .error .zeroTimeout
  checkDetails config r

end Request

end Segments
