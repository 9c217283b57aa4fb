import Segments.Error

/-!
# The life of a segment

A segment is created, takes appends while it is active, is sealed, and may then be merged into
another. Active, sealed and merged segments can be deleted. Merged and deleted are the ends.
-/

namespace Segments

/-- The name of a segment inside the engine; numbers are never used twice. -/
abbrev SegmentId := Nat

/-- A segment number as text. -/
def SegmentId.text (id : SegmentId) : String := "seg:" ++ toString id

/-- The number after this one. -/
def SegmentId.next (id : SegmentId) : SegmentId := id + 1

/-- A stage in the life of a segment. -/
inductive SegmentState where
  /-- Registered but not yet committed. -/
  | creating
  /-- Takes appends. -/
  | active
  /-- The length is final. -/
  | sealed
  /-- Being merged into another segment. -/
  | merging
  /-- The content belongs to another segment. -/
  | merged
  /-- Removed. -/
  | deleted
  deriving DecidableEq, Repr, Inhabited

namespace SegmentState

/-- Every stage, in the order of life. -/
def all : List SegmentState := [creating, active, sealed, merging, merged, deleted]

/-- The name of a stage. -/
def name : SegmentState → String
  | creating => "creating"
  | active => "active"
  | sealed => "sealed"
  | merging => "merging"
  | merged => "merged"
  | deleted => "deleted"

/-- The stage with a name. -/
def ofName? (text : String) : Option SegmentState := all.find? fun s => s.name == text

/-- Active and sealed segments can be read. -/
def requireReadable (state : SegmentState) (segment : String) : Except SegmentError Unit :=
  match state with
  | active | sealed => .ok ()
  | merging | merged => .error (.segmentMerged segment)
  | creating | deleted => .error (.segmentNotFound segment)

/-- Only active segments take appends and attribute updates. -/
def requireWritable (state : SegmentState) (segment : String) : Except SegmentError Unit :=
  match state.requireReadable segment with
  | .error e => .error e
  | .ok () => if state = sealed then .error (.segmentSealed segment) else .ok ()

/-- Whether a segment may go from one stage to another. -/
def canBecome : SegmentState → SegmentState → Bool
  | creating, active => true
  | active, sealed => true
  | sealed, merging => true
  | merging, merged => true
  | active, deleted => true
  | sealed, deleted => true
  | merged, deleted => true
  | _, _ => false

/-- Whether only deletion can follow, or nothing. -/
def isTerminal : SegmentState → Bool
  | merged | deleted => true
  | _ => false

/-- Whether the length can no longer grow. -/
def isSealed : SegmentState → Bool
  | sealed | merging | merged => true
  | _ => false

end SegmentState

end Segments
