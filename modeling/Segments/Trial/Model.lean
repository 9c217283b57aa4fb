import Segments.Attribute.Batch
import Segments.Engine.Request
import Segments.Table

/-!
# A model of one segment

The model knows one active segment by what was done to it: its bytes, how far it is truncated,
whether it is sealed, and its attribute values. Actions on it tell where they apply relative to
the present length. The model predicts how each action ends.
-/

namespace Segments

/-- Something done to the one segment of a model. -/
inductive SegmentAction where
  /-- Append at the end, with attribute updates. -/
  | append (data : Bytes) (updates : List Update)
  /-- Append at the length plus a skew. -/
  | appendAt (skew : Int) (data : Bytes)
  /-- Change attributes. -/
  | update (updates : List Update)
  /-- Truncate at a percentage of the length. -/
  | truncate (percent : Nat)
  /-- Make the length final. -/
  | sealing
  deriving DecidableEq, Repr

/-- How an action ends. -/
inductive Outcome where
  /-- It takes effect. -/
  | done
  /-- The segment is sealed. -/
  | sealed
  /-- The offset is not the right one. -/
  | badOffset
  /-- The condition of an update does not hold. -/
  | attributeFailed
  deriving DecidableEq, Repr

/-- What is known about the one segment. -/
structure SegmentModel where
  /-- All bytes ever appended. -/
  data : Bytes
  /-- The truncation offset. -/
  truncationOffset : Nat
  /-- Whether the length is final. -/
  sealed : Bool
  /-- The attribute values. -/
  attributes : Table AttributeId AttributeValue
  deriving DecidableEq

namespace Outcome

/-- The name of an outcome. -/
def name : Outcome → String
  | done => "Ok"
  | sealed => "Sealed"
  | badOffset => "BadOffset"
  | attributeFailed => "AttributeFailed"

/-- The outcome that an error of a store stands for, if it is one that the model knows. -/
def ofError? : SegmentError → Option Outcome
  | .segmentSealed _ => some sealed
  | .badOffset .. => some badOffset
  | .attributeUpdateFailed .. => some attributeFailed
  | _ => none

end Outcome

namespace SegmentModel

/-- A segment to which nothing was done. -/
def empty : SegmentModel := ⟨[], 0, false, .empty⟩

instance : Inhabited SegmentModel := ⟨empty⟩

/-- The length of the segment. -/
def length (m : SegmentModel) : Nat := m.data.length

/-- The value of an attribute, or the value that stands for none. -/
def value (m : SegmentModel) (id : AttributeId) : AttributeValue :=
  (m.attributes.get? id).getD nullValue

/-- The offset that a skew stands for, never below zero. -/
def skewedOffset (m : SegmentModel) (skew : Int) : Nat := (m.length + skew).toNat

/-- The offset that a percentage of the length stands for. -/
def percentOffset (m : SegmentModel) (percent : Nat) : Nat := m.length * percent / 100

/-- The offset that an action names at present, if it names one. -/
def offset? (m : SegmentModel) : SegmentAction → Option Nat
  | .appendAt skew _ => some (m.skewedOffset skew)
  | .truncate percent => some (m.percentOffset percent)
  | _ => none

/-- Changes attributes by a batch, or not at all. -/
def updateAll (m : SegmentModel) (updates : List Update) : SegmentModel × Outcome :=
  match Batch.evaluate m.value updates with
  | .error _ => (m, .attributeFailed)
  | .ok values =>
    ({ m with attributes := values.foldl (fun t v => t.insert v.1 v.2) m.attributes }, .done)

/-- Appends with attribute updates, at an expected length if one is given. -/
def append (m : SegmentModel) (expected : Option Nat) (data : Bytes) (updates : List Update) :
    SegmentModel × Outcome :=
  if m.sealed then (m, .sealed)
  else if expected.any (· ≠ m.length) then (m, .badOffset)
  else
    match m.updateAll updates with
    | (m, .done) => ({ m with data := m.data ++ data }, .done)
    | (m, outcome) => (m, outcome)

/-- Does something to the segment and tells how it ends. -/
def apply (m : SegmentModel) (action : SegmentAction) : SegmentModel × Outcome :=
  match action with
  | .append data updates => m.append none data updates
  | .appendAt _ data => m.append (m.offset? action) data []
  | .update updates => if m.sealed then (m, .sealed) else m.updateAll updates
  | .truncate percent =>
    if m.percentOffset percent < m.truncationOffset then (m, .badOffset)
    else ({ m with truncationOffset := m.percentOffset percent }, .done)
  | .sealing => ({ m with sealed := true }, .done)

/-- The request by which an action is done to a segment in the state of the model. -/
def request (m : SegmentModel) (name : String) : SegmentAction → Request
  | .append data updates => .append name data updates
  | .appendAt skew data => .appendAt name (m.skewedOffset skew) data []
  | .update updates => .update name updates
  | .truncate percent => .truncate name (m.percentOffset percent)
  | .sealing => .sealing name

end SegmentModel

end Segments
