import Segments.Attribute.Id
import Segments.Segment.State
import Segments.Table

/-!
# The attribute index

The index keeps the extended attribute values of all segments, one entry for each pair of
segment and attribute. The value that stands for none is never kept: storing it erases.
-/

namespace Segments

/-- The stored attribute values of all segments. -/
structure AttributeIndex where
  /-- One entry for each stored value. -/
  entries : Table (SegmentId × AttributeId) AttributeValue
  deriving DecidableEq

namespace AttributeIndex

/-- The index without values. -/
def empty : AttributeIndex := ⟨.empty⟩

instance : Inhabited AttributeIndex := ⟨empty⟩

/-- The stored value of an attribute of a segment. -/
def get? (index : AttributeIndex) (segment : SegmentId) (id : AttributeId) :
    Option AttributeValue :=
  index.entries.get? (segment, id)

/-- Stores one value, or erases it. -/
def set (index : AttributeIndex) (segment : SegmentId) (id : AttributeId)
    (value : AttributeValue) : AttributeIndex :=
  if value = nullValue then ⟨index.entries.erase (segment, id)⟩
  else ⟨index.entries.insert (segment, id) value⟩

/-- Stores values of one segment, one after another. -/
def put (index : AttributeIndex) (segment : SegmentId) (values : AttributeValues) :
    AttributeIndex :=
  values.foldl (fun i v => i.set segment v.1 v.2) index

/-- Erases all values of a segment. -/
def removeSegment (index : AttributeIndex) (segment : SegmentId) : AttributeIndex :=
  ⟨index.entries.filter fun key _ => decide (key.1 ≠ segment)⟩

/-- The stored ones among some attributes of a segment. -/
def lookup (index : AttributeIndex) (segment : SegmentId) (ids : List AttributeId) :
    AttributeValues :=
  ids.eraseDups.filterMap fun id => (index.get? segment id).map (id, ·)

/-- The number of values of a segment. -/
def countOf (index : AttributeIndex) (segment : SegmentId) : Nat :=
  (index.entries.keys.filter fun key => key.1 == segment).length

/-- Whether a segment has any value. -/
def containsSegment (index : AttributeIndex) (segment : SegmentId) : Bool :=
  index.entries.keys.any fun key => key.1 == segment

/-- The number of values of all segments. -/
def size (index : AttributeIndex) : Nat := index.entries.size

/-- Whether nothing is stored. -/
def isEmpty (index : AttributeIndex) : Bool := index.entries.isEmpty

/-- The number of segments that have a value. -/
def segmentCount (index : AttributeIndex) : Nat :=
  (index.entries.keys.map Prod.fst).eraseDups.length

end AttributeIndex

end Segments
