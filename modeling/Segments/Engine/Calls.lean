import Segments.Engine.Scheduler

/-!
# Calls and their answers

Shorthands for a caller that waits for every answer before the next request. A request that is
rejected fails as an internal error with the wording of the rejection.
-/

namespace Segments.Scheduler

/-- How long a patient caller waits, in nanoseconds. -/
def patience : Nat := 30 * 1000000000

/-- Submits a request and waits for its answer. -/
def ask (s : Scheduler) (request : Request) : Scheduler × Except SegmentError Answer :=
  match s.call request patience with
  | (s, .error e) => (s, .error (.internal e.message))
  | (s, .ok (some result)) => (s, result)
  | (s, .ok none) => (s, .error (.cancelled (request.operation ++ " was cancelled")))

/-- Submits a request whose answer does not matter. -/
def tell (s : Scheduler) (request : Request) : Scheduler := (s.ask request).1

/-- Asks for the description of a segment after all operations accepted before. -/
def describe (s : Scheduler) (name : String) : Scheduler × Except SegmentError Properties :=
  match s.ask (.info name true) with
  | (s, .ok (.properties p)) => (s, .ok p)
  | (s, .ok _) => (s, .error (.segmentNotFound name))
  | (s, .error e) => (s, .error e)

/-- The length of each segment, in the order of the names. -/
def lengths (s : Scheduler) : Except SegmentError (List (String × Nat)) :=
  s.engine.segmentNames.mapM fun name =>
    (s.describe name).2.map fun p => (name, p.length)

/-- Reads a range with one look, as far as it is there. -/
def fetch (s : Scheduler) (name : String) (offset length : Nat) : Scheduler × Poll :=
  match s.ask (.read name offset length) with
  | (s, .ok (.reader reader)) =>
    let (reader, poll, events) := reader.toEnd s.engine false
    ({ s with engine := s.engine.closeReader reader }.report events, poll)
  | (s, .ok _) => (s, .ended)
  | (s, .error e) => (s, .failed e)

/-- Reads a described segment from its truncation offset to its end; a merged segment and one
without readable bytes have nothing to read. -/
def contents? (s : Scheduler) (p : Properties) : Scheduler × Option Poll :=
  if p.merged || p.length == p.truncationOffset then (s, none)
  else
    let (s, poll) := s.fetch p.name p.truncationOffset (p.length - p.truncationOffset)
    (s, some poll)

/-- The readable bytes of a described segment. -/
def readAll (s : Scheduler) (p : Properties) : Bytes :=
  match (s.contents? p).2 with
  | some (.chunk bytes) => bytes
  | _ => []

end Segments.Scheduler
