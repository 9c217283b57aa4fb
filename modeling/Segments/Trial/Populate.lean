import Segments.Trial.Crash

/-!
# Populated stores

A standard population of a store: numbered segments, each with the same number of appends, which
an event count counts.
-/

namespace Segments

/-- The name of a numbered segment. -/
def segmentName (i : Nat) : String := s!"scope/stream/{i}"

/-- The update that counts one more event. -/
def countEvent : Update := .accumulate .eventCount 1

namespace Scheduler

/-- Creates a segment and appends payloads to it, each counted as an event. -/
def fillSegment (payloads : List Bytes) (s : Scheduler) (name : String) : Scheduler :=
  payloads.foldl (fun s payload => s.tell (.append name payload [countEvent]))
    (s.tell (.create name []))

/-- Fills a store with numbered segments. -/
def populate (segments appends payloadSize : Nat) (s : Scheduler) : Scheduler :=
  ((List.range segments).map segmentName).foldl
    (fillSegment (numberedPayloads appends payloadSize)) s

/-- Shuts the store down and opens it again over what it left. -/
def restart (s : Scheduler) : Scheduler :=
  let (down, _) := s.shutdown
  match down.engine.contents.openStore s.engine.config s.engine.clock with
  | (_, _, .ok engine) => .ofEngine engine
  | (_, _, .error _) => down

end Scheduler

end Segments
