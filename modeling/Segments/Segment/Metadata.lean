import Segments.Attribute.Tiers
import Segments.Segment.State

/-!
# Segment metadata

The mutable state of one segment apart from its bytes, and two views of it: the properties
that callers are given and the tail that readers follow.
-/

namespace Segments

/-- The mutable state of a segment. -/
structure Metadata where
  /-- The number of the segment. -/
  id : SegmentId
  /-- The name of the segment. -/
  name : String
  /-- The stage of life. -/
  state : SegmentState
  /-- The number of bytes ever appended, merged ones included. -/
  length : Nat
  /-- The lowest readable offset. -/
  truncationOffset : Nat
  /-- The segment that took over the content. -/
  mergedInto : Option SegmentId
  /-- The attribute values in memory. -/
  attributes : AttributeTiers
  /-- How often the segment was evicted. -/
  evictionEpoch : Nat
  deriving DecidableEq

/-- What callers are told about a segment. -/
structure Properties where
  /-- The name. -/
  name : String
  /-- The number. -/
  id : SegmentId
  /-- The length. -/
  length : Nat
  /-- Whether the length is final. -/
  sealed : Bool
  /-- Whether the content belongs to another segment. -/
  merged : Bool
  /-- Whether the segment was deleted; what callers are given never is. -/
  deleted : Bool
  /-- The lowest readable offset. -/
  truncationOffset : Nat
  /-- The resident attribute values. -/
  attributes : AttributeValues
  deriving DecidableEq

/-- What readers need to know about a segment. -/
structure Tail where
  /-- The length. -/
  length : Nat
  /-- Whether the length is final. -/
  sealed : Bool
  /-- The lowest readable offset. -/
  truncationOffset : Nat
  /-- Whether the content belongs to another segment. -/
  merged : Bool
  /-- Whether the segment was deleted. -/
  deleted : Bool
  /-- How often the segment was evicted. -/
  evictionEpoch : Nat
  deriving DecidableEq, Repr, Inhabited

namespace Metadata

/-- A segment that is being created. -/
def new (id : SegmentId) (name : String) : Metadata where
  id := id
  name := name
  state := .creating
  length := 0
  truncationOffset := 0
  mergedInto := none
  attributes := .empty
  evictionEpoch := 0

instance : Inhabited Metadata := ⟨new 0 ""⟩

/-- What callers are told. -/
def properties (m : Metadata) : Properties where
  name := m.name
  id := m.id
  length := m.length
  sealed := m.state.isSealed
  merged := m.mergedInto.isSome
  deleted := false
  truncationOffset := m.truncationOffset
  attributes := m.attributes.cache.snapshot

/-- What readers are told. -/
def tail (m : Metadata) : Tail where
  length := m.length
  sealed := m.state.isSealed
  truncationOffset := m.truncationOffset
  merged := m.mergedInto.isSome
  deleted := decide (m.state = .deleted)
  evictionEpoch := m.evictionEpoch

end Metadata

namespace Properties

/-- The value of a resident attribute. -/
def attribute? (p : Properties) (id : AttributeId) : Option AttributeValue :=
  p.attributes.lookup id

end Properties

end Segments
