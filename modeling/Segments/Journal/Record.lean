import Segments.Attribute.Id
import Segments.Segment.State

/-!
# Journal records

A record is one committed change. Attribute lists hold the values that resulted, never the
conditional updates that led to them, so that replay has no condition to evaluate again.
-/

namespace Segments

/-- The kind of a record. -/
inductive RecordKind where
  /-- A segment was created. -/
  | create
  /-- Bytes were appended. -/
  | append
  /-- Attributes changed without bytes. -/
  | updateAttributes
  /-- A segment was sealed. -/
  | sealing
  /-- A sealed segment was merged into another. -/
  | merge
  /-- A segment was truncated. -/
  | truncate
  /-- A segment was deleted. -/
  | delete
  deriving DecidableEq, Repr, Inhabited

namespace RecordKind

/-- Every kind, by rising code. -/
def all : List RecordKind := [create, append, updateAttributes, sealing, merge, truncate, delete]

/-- The byte that stands for a kind in a frame. -/
def code : RecordKind → Nat
  | create => 1
  | append => 2
  | updateAttributes => 3
  | sealing => 4
  | merge => 5
  | truncate => 6
  | delete => 7

/-- The kind that a byte stands for. -/
def ofCode? (n : Nat) : Option RecordKind := all.find? fun k => k.code == n

/-- The name of a kind in listings. -/
def name : RecordKind → String
  | create => "create"
  | append => "append"
  | updateAttributes => "update_attributes"
  | sealing => "seal"
  | merge => "merge"
  | truncate => "truncate"
  | delete => "delete"

@[simp] theorem ofCode?_code (k : RecordKind) : ofCode? k.code = some k := by
  cases k <;> rfl

end RecordKind

/-- One committed change. -/
inductive Record where
  /-- A segment was created with its first attribute values. -/
  | create (segment : SegmentId) (name : String) (attributes : AttributeValues)
  /-- Bytes were appended at an offset, with the attribute values committed beside them. -/
  | append (segment : SegmentId) (offset : Nat) (data : Bytes) (attributes : AttributeValues)
  /-- Attributes changed; the value that stands for none removes. -/
  | updateAttributes (segment : SegmentId) (attributes : AttributeValues)
  /-- A segment was sealed at its final length. -/
  | sealing (segment : SegmentId) (length : Nat)
  /-- A sealed source was moved to the end of a target. -/
  | merge (target source : SegmentId) (sourceLength targetOffset : Nat)
  /-- The truncation offset of a segment was raised. -/
  | truncate (segment : SegmentId) (offset : Nat)
  /-- A segment was deleted. -/
  | delete (segment : SegmentId)
  deriving DecidableEq, Repr

namespace Record

/-- The kind of a record. -/
def kind : Record → RecordKind
  | create .. => .create
  | append .. => .append
  | updateAttributes .. => .updateAttributes
  | sealing .. => .sealing
  | merge .. => .merge
  | truncate .. => .truncate
  | delete .. => .delete

/-- The segment that a record changes; for a merge, the target. -/
def segment : Record → SegmentId
  | create s _ _ | append s _ _ _ | updateAttributes s _ | sealing s _ | merge s _ _ _
  | truncate s _ | delete s => s

end Record

end Segments
