import Segments.Attribute.Update

/-!
# Batches of updates

A batch is evaluated as a whole against one view of the current values: either every update
applies, and the new values come in the order of the batch, or the first one whose condition
does not hold is reported.
-/

namespace Segments.Batch

/-- The first attribute that occurs in a batch for the second time. -/
def firstRepeated? : List AttributeId → List Update → Option AttributeId
  | _, [] => none
  | seen, u :: rest => if u.id ∈ seen then some u.id else firstRepeated? (u.id :: seen) rest

/-- The new values, or the first update that does not apply. -/
def evaluate (current : AttributeId → AttributeValue) :
    List Update → Except (AttributeId × Refusal) AttributeValues
  | [] => .ok []
  | u :: rest =>
    match u.evaluate (current u.id) with
    | .error refusal => .error (u.id, refusal)
    | .ok value =>
      match evaluate current rest with
      | .error failure => .error failure
      | .ok values => .ok ((u.id, value) :: values)

/-- The attributes that evaluation looks at: all, or those up to the first refusal. -/
def consulted (current : AttributeId → AttributeValue) : List Update → List AttributeId
  | [] => []
  | u :: rest =>
    match u.evaluate (current u.id) with
    | .error _ => [u.id]
    | .ok _ => u.id :: consulted current rest

end Segments.Batch
