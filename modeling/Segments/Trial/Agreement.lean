import Segments.Engine.Calls
import Segments.Trial.Model

/-!
# Agreement of a store with the model

The same actions are done to a segment of a store and to the model. They agree if every action
ends the same way, and if afterwards the description, the readable bytes and the values of some
attributes are the same.
-/

namespace Segments

namespace Outcome

/-- How the answer to a request counts, if the model knows such an end. -/
def ofResult? : Except SegmentError Answer → Option Outcome
  | .ok _ => some .done
  | .error e => ofError? e

end Outcome

namespace Scheduler

/-- Does actions to a segment and to its model; tells whether each ended the same way. -/
def follow (name : String) :
    List SegmentAction → Scheduler → SegmentModel → Scheduler × SegmentModel × Bool
  | [], s, m => (s, m, true)
  | action :: rest, s, m =>
    let (s, result) := s.ask (m.request name action)
    let (m, expected) := m.apply action
    if Outcome.ofResult? result = some expected then follow name rest s m else (s, m, false)

/-- Whether a segment has the values of the model, a missing one being the value for none. -/
def hasValues (s : Scheduler) (name : String) (m : SegmentModel) (ids : List AttributeId) :
    Bool :=
  match (s.ask (.lookup name ids false)).2 with
  | .ok (.attributes values) =>
    ids.all fun id => (values.lookup id).getD nullValue == m.value id
  | _ => false

/-- Whether a segment is as the model says. -/
def matchesModel (s : Scheduler) (name : String) (m : SegmentModel) (ids : List AttributeId) :
    Bool :=
  match s.describe name with
  | (s, .ok p) =>
    p.length == m.length && p.truncationOffset == m.truncationOffset && p.sealed == m.sealed
      && s.readAll p == m.data.drop m.truncationOffset && s.hasValues name m ids
  | (_, .error _) => false

/-- Whether a new segment of a store agrees with the model on actions and attributes. -/
def agreesOn (s : Scheduler) (name : String) (actions : List SegmentAction)
    (ids : List AttributeId) : Bool :=
  let (s, m, same) := (s.tell (.create name [])).follow name actions .empty
  same && s.matchesModel name m ids

end Scheduler

end Segments
