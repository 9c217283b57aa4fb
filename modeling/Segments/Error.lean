import Segments.Attribute.Id
import Segments.Text.Duration
import Segments.Text.Quoted

/-!
# Errors

Three families. A `StorageError` comes from a byte store. An `ArgumentError` rejects an
operation before it is accepted. A `SegmentError` is the answer of an accepted operation; its
class tells whether a precondition failed, the segment is gone, the store is unavailable, or
the engine is at fault. Each family has one function for its wording.
-/

namespace Segments

/-- Failures of a byte store. -/
inductive StorageError where
  /-- The device failed. -/
  | io (text : String)
  /-- A read touched bytes that were never appended. -/
  | readPastEnd (offset len size : Nat)
  /-- A truncation asked to grow the store. -/
  | truncatePastEnd (requested size : Nat)
  deriving DecidableEq, Repr

/-- Why an operation is rejected before it is accepted. -/
inductive ArgumentError where
  /-- The segment name is malformed. -/
  | invalidSegmentName (name reason : String)
  /-- A timeout of zero can never be met. -/
  | zeroTimeout
  /-- The payload exceeds the configured maximum. -/
  | appendTooLarge (len max : Nat)
  /-- A read asked for no bytes. -/
  | zeroReadLength
  /-- An offset does not fit the signed 64-bit offset space. -/
  | offsetOutOfRange (offset : Nat)
  /-- The same attribute occurs twice in one batch. -/
  | duplicateAttribute (id : AttributeId)
  /-- A segment cannot be merged into itself. -/
  | selfMerge (name : String)
  deriving DecidableEq, Repr

/-- What an offset was checked against. -/
inductive OffsetBound where
  /-- A conditional append must name the length. -/
  | length (length : Nat)
  /-- A truncation offset lies between the present one and the length. -/
  | truncation (lower length : Nat)
  /-- A read of a sealed segment starts at its length or before. -/
  | sealedAt (length : Nat)
  deriving DecidableEq, Repr

/-- The answer of an operation that failed. -/
inductive SegmentError where
  /-- No live segment has this name. -/
  | segmentNotFound (name : String)
  /-- A segment with this name exists already. -/
  | segmentExists (name : String)
  /-- The segment is sealed and takes no writes. -/
  | segmentSealed (name : String)
  /-- The source of a merge has not been sealed. -/
  | segmentNotSealed (name : String)
  /-- The segment was merged into another. -/
  | segmentMerged (name : String)
  /-- The offset lies below the truncation offset. -/
  | segmentTruncated (name : String) (offset truncationOffset : Nat)
  /-- The offset disagrees with the state of the segment. -/
  | badOffset (name : String) (offset : Nat) (bound : OffsetBound)
  /-- The condition of an update does not hold; nothing was applied. -/
  | attributeUpdateFailed (name : String) (id : AttributeId) (reason : String)
  /-- The operation did not finish within its timeout, given in nanoseconds. -/
  | timeout (operation : String) (nanos : Nat)
  /-- The operation or read was cancelled. -/
  | cancelled (reason : String)
  /-- The store has been shut down. -/
  | storeClosed
  /-- Another holder has the lock of the store directory. -/
  | storeLocked (path : String)
  /-- The byte store failed. -/
  | storage (error : StorageError)
  /-- The journal is damaged or contradicts itself. -/
  | journalCorruption (message : String)
  /-- A record does not match its checksum. -/
  | checksumMismatch (expected actual : UInt32)
  /-- A payload could not be encoded or decoded. -/
  | codec (message : String)
  /-- The engine failed unexpectedly. -/
  | internal (message : String)
  deriving DecidableEq, Repr

/-- The broad category of a failed operation. -/
inductive ErrorClass where
  /-- A logical precondition failed. -/
  | stateConflict
  /-- The segment is missing, gone, or truncated. -/
  | notFound
  /-- Timeout, cancellation, shutdown or lock. -/
  | unavailable
  /-- A fault inside the engine. -/
  | internal
  deriving DecidableEq, Repr

namespace StorageError

/-- The wording of a storage error. -/
def message : StorageError → String
  | io text => "I/O error: " ++ text
  | readPastEnd offset len size =>
    s!"read beyond end of storage: offset {offset}, len {len}, size {size}"
  | truncatePastEnd requested size =>
    s!"cannot truncate to {requested} bytes, storage holds {size}"

/-- Whether the device failed, as against a caller asking for bytes that do not exist. -/
def isIo : StorageError → Bool
  | io _ => true
  | _ => false

/-- The name of the kind of a storage error. -/
def label : StorageError → String
  | io _ => "Io"
  | readPastEnd .. => "ReadPastEnd"
  | truncatePastEnd .. => "TruncatePastEnd"

/-- The structural form of a storage error. -/
def form : StorageError → String
  | io text => "Io(" ++ Text.quoted text ++ ")"
  | readPastEnd offset len size =>
    s!"ReadPastEnd \x7b offset: {offset}, len: {len}, size: {size} \x7d"
  | truncatePastEnd requested size =>
    s!"TruncatePastEnd \x7b requested: {requested}, size: {size} \x7d"

end StorageError

namespace ArgumentError

/-- The wording of an argument error. -/
def message : ArgumentError → String
  | invalidSegmentName name reason => "invalid segment name " ++ Text.quoted name ++ ": " ++ reason
  | zeroTimeout => "timeout must be greater than zero"
  | appendTooLarge len max => s!"append of {len} bytes exceeds the maximum of {max} bytes"
  | zeroReadLength => "read length must be greater than zero"
  | offsetOutOfRange offset => s!"offset {offset} is out of range"
  | duplicateAttribute id =>
    "attribute " ++ id.text ++ " appears more than once in the update batch"
  | selfMerge name => "cannot merge segment " ++ Text.quoted name ++ " into itself"

/-- The name of the kind of an argument error. -/
def label : ArgumentError → String
  | invalidSegmentName .. => "InvalidSegmentName"
  | zeroTimeout => "ZeroTimeout"
  | appendTooLarge .. => "AppendTooLarge"
  | zeroReadLength => "ZeroReadLength"
  | offsetOutOfRange _ => "OffsetOutOfRange"
  | duplicateAttribute _ => "DuplicateAttribute"
  | selfMerge _ => "SelfMerge"

/-- The structural form of an argument error. -/
def form : ArgumentError → String
  | invalidSegmentName name reason =>
    "InvalidSegmentName \x7b name: " ++ Text.quoted name ++ ", reason: " ++ Text.quoted reason
      ++ " \x7d"
  | zeroTimeout => "ZeroTimeout"
  | appendTooLarge len max => s!"AppendTooLarge \x7b len: {len}, max: {max} \x7d"
  | zeroReadLength => "ZeroReadLength"
  | offsetOutOfRange offset => s!"OffsetOutOfRange \x7b offset: {offset} \x7d"
  | duplicateAttribute id =>
    "DuplicateAttribute \x7b attribute_id: AttributeId(" ++ id.uuidText ++ ") \x7d"
  | selfMerge name => "SelfMerge \x7b name: " ++ Text.quoted name ++ " \x7d"

end ArgumentError

namespace ErrorClass

/-- The name of a class of errors. -/
def label : ErrorClass → String
  | stateConflict => "StateConflict"
  | notFound => "NotFound"
  | unavailable => "Unavailable"
  | internal => "Internal"

end ErrorClass

namespace OffsetBound

/-- The wording of an offset bound. -/
def message : OffsetBound → String
  | .length n => s!"segment length is {n}"
  | .truncation lower n => s!"truncation offset must be within [{lower}, {n}]"
  | .sealedAt n => s!"segment is sealed at length {n}"

end OffsetBound

namespace SegmentError

/-- The wording of a segment error. -/
def message : SegmentError → String
  | segmentNotFound name => "segment not found: " ++ name
  | segmentExists name => "segment already exists: " ++ name
  | segmentSealed name => "segment is sealed: " ++ name
  | segmentNotSealed name => "segment is not sealed: " ++ name
  | segmentMerged name => "segment has been merged: " ++ name
  | segmentTruncated name offset truncationOffset =>
    s!"segment {name} is truncated at {truncationOffset}, offset {offset} is no longer readable"
  | badOffset name offset bound =>
    s!"bad offset {offset} for segment {name}: " ++ bound.message
  | attributeUpdateFailed name id reason =>
    "attribute update failed for " ++ id.text ++ " on segment " ++ name ++ ": " ++ reason
  | timeout operation nanos => operation ++ " timed out after " ++ Text.duration nanos
  | cancelled reason => "cancelled: " ++ reason
  | storeClosed => "segment store is closed"
  | storeLocked path => "store directory is locked by another process: " ++ path
  | storage error => "storage error: " ++ error.message
  | journalCorruption message => "journal corruption: " ++ message
  | checksumMismatch expected actual =>
    "checksum mismatch: expected " ++ Hex.ofWord expected ++ ", got " ++ Hex.ofWord actual
  | codec message => "codec error: " ++ message
  | internal message => "internal error: " ++ message

/-- The broad category of a segment error. -/
def category : SegmentError → ErrorClass
  | badOffset .. | attributeUpdateFailed .. | segmentExists _ | segmentNotSealed _
  | segmentSealed _ => .stateConflict
  | segmentNotFound _ | segmentMerged _ | segmentTruncated .. => .notFound
  | timeout .. | cancelled _ | storeClosed | storeLocked _ => .unavailable
  | storage _ | journalCorruption _ | checksumMismatch .. | codec _ | internal _ => .internal

/-- Whether the same call may succeed when it is simply made again. -/
def isRetryable (e : SegmentError) : Bool := decide (e.category = .unavailable)

/-- The name of the kind of a segment error. -/
def label : SegmentError → String
  | segmentNotFound _ => "SegmentNotFound"
  | segmentExists _ => "SegmentExists"
  | segmentSealed _ => "SegmentSealed"
  | segmentNotSealed _ => "SegmentNotSealed"
  | segmentMerged _ => "SegmentMerged"
  | segmentTruncated .. => "SegmentTruncated"
  | badOffset .. => "BadOffset"
  | attributeUpdateFailed .. => "AttributeUpdateFailed"
  | timeout .. => "Timeout"
  | cancelled _ => "Cancelled"
  | storeClosed => "StoreClosed"
  | storeLocked _ => "StoreLocked"
  | storage _ => "Storage"
  | journalCorruption _ => "JournalCorruption"
  | checksumMismatch .. => "ChecksumMismatch"
  | codec _ => "Codec"
  | internal _ => "Internal"

/-- The fields of a segment error in its structural form. -/
def fields : SegmentError → List (String × String)
  | segmentNotFound name | segmentExists name | segmentSealed name | segmentNotSealed name
  | segmentMerged name => [("name", Text.quoted name)]
  | segmentTruncated name offset truncationOffset =>
    [("name", Text.quoted name), ("offset", toString offset),
      ("truncation_offset", toString truncationOffset)]
  | badOffset name offset bound =>
    [("name", Text.quoted name), ("offset", toString offset),
      ("reason", Text.quoted bound.message)]
  | attributeUpdateFailed name id reason =>
    [("name", Text.quoted name), ("attribute_id", "AttributeId(" ++ id.uuidText ++ ")"),
      ("reason", Text.quoted reason)]
  | timeout operation nanos =>
    [("operation", Text.quoted operation), ("timeout", Text.duration nanos)]
  | cancelled reason => [("reason", Text.quoted reason)]
  | storeLocked path => [("path", Text.quoted path)]
  | journalCorruption message | codec message | internal message =>
    [("message", Text.quoted message)]
  | checksumMismatch expected actual =>
    [("expected", toString expected.toNat), ("actual", toString actual.toNat)]
  | storeClosed | storage _ => []

/-- The structural form of a segment error. -/
def form : SegmentError → String
  | storeClosed => storeClosed.label
  | storage error => "Storage(" ++ error.form ++ ")"
  | e => e.label ++ " \x7b " ++ ", ".intercalate (e.fields.map fun f => f.1 ++ ": " ++ f.2)
      ++ " \x7d"

end SegmentError

end Segments
