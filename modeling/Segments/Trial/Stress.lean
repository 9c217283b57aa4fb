import Segments.Text.Rounding
import Segments.Trial.Populate

/-!
# Stress workloads

Several clients work on one segment at the same time: they append without conditions, race each
other with conditional appends, or follow the segment while it grows. A report tells how many
operations succeeded and failed, and how fast they were.
-/

namespace Segments

/-- The size of a workload. -/
structure StressConfig where
  /-- The number of operations of each client. -/
  operations : Nat
  /-- The number of clients. -/
  tasks : Nat
  /-- The size of each append. -/
  payloadSize : Nat
  deriving DecidableEq, Repr

/-- How many operations succeeded and failed. -/
structure Tally where
  /-- The successes. -/
  successful : Nat
  /-- The failures. -/
  failed : Nat
  deriving DecidableEq, Repr, Inhabited

/-- What a workload reports. -/
structure StressReport where
  /-- How many operations succeeded and failed. -/
  tally : Tally
  /-- How long it took, in nanoseconds. -/
  nanos : Nat
  deriving DecidableEq, Repr

/-- The kinds of workload. -/
inductive Workload where
  /-- Appends without conditions, counted as events. -/
  | appends
  /-- Appends at the length that was seen, tried again when another client was faster. -/
  | conditional
  /-- Appends of one client that the others follow. -/
  | tailing
  deriving DecidableEq, Repr

namespace StressConfig

/-- The workload of a run that asks for nothing special. -/
def standard : StressConfig := ⟨1000, 4, 256⟩

/-- A payload of the configured size. -/
def payload (c : StressConfig) (byte : UInt8) : Bytes := List.replicate c.payloadSize byte

end StressConfig

namespace Tally

/-- Counts one more operation. -/
def count {α : Type} (t : Tally) : Except SegmentError α → Tally
  | .ok _ => { t with successful := t.successful + 1 }
  | .error _ => { t with failed := t.failed + 1 }

/-- The number of operations. -/
def total (t : Tally) : Nat := t.successful + t.failed

end Tally

namespace StressReport

/-- The duration in seconds, as a binary fraction. -/
def seconds (s : StressReport) : Nat × Nat :=
  Text.addBinary (Text.nearestBinary (s.nanos / 1000000000) 1)
    (Text.nearestBinary (s.nanos % 1000000000) 1000000000)

/-- Operations in a second, as a binary fraction; zero if no time passed. -/
def throughput (s : StressReport) : Nat × Nat :=
  if s.nanos = 0 then (0, 1)
  else Text.divBinary (Text.nearestBinary s.tally.total 1) s.seconds

/-- The summary of a report under a title. -/
def summary (s : StressReport) (title : String) : String :=
  "\n=== " ++ title ++ " ===\n"
    ++ s!"Total operations: {s.tally.total}\n"
    ++ s!"Successful: {s.tally.successful}\n"
    ++ s!"Failed: {s.tally.failed}\n"
    ++ "Duration: " ++ Text.duration s.nanos ++ "\n"
    ++ "Throughput: " ++ Text.fixedDecimal 2 s.throughput.1 s.throughput.2 ++ " ops/sec\n"

end StressReport

namespace Workload

/-- One client's turn: an append that counts an event. -/
def appendTurn (c : StressConfig) (segment : String) (state : Scheduler × Tally) (task : Nat) :
    Scheduler × Tally :=
  let (s, result) := state.1.ask (.append segment (c.payload (UInt8.ofNat task)) [countEvent])
  (s, state.2.count result)

/-- Clients append in turns. -/
def runAppends (c : StressConfig) (segment : String) (s : Scheduler) : Scheduler × Tally :=
  let turns := (List.replicate c.operations (List.range c.tasks)).flatten
  turns.foldl (appendTurn c segment) (s, default)

/-- Clients that all saw the same length try to append there; gives what is left to do for
each. -/
def race (c : StressConfig) (segment : String) (length : Nat) :
    List Nat → Scheduler × Tally → (Scheduler × Tally) × List Nat
  | [], state => (state, [])
  | left :: others, (s, tally) =>
    let (s, result) := s.ask (.appendAt segment length (c.payload 0xab) [])
    let (state, rest) := race c segment length others (s, tally.count result)
    (state, (match result with
      | .ok _ => left - 1
      | .error _ => left) :: rest)

/-- Races until every client has done its operations, at most `fuel` of them. -/
def races (c : StressConfig) (segment : String) :
    Nat → List Nat → Scheduler × Tally → Scheduler × Tally
  | 0, _, state => state
  | fuel + 1, left, (s, tally) =>
    match left.filter (0 < ·), s.describe segment with
    | [], _ | _, (_, .error _) => (s, tally)
    | busy, (s, .ok p) =>
      let (state, left) := race c segment p.length busy (s, tally)
      races c segment fuel left state

/-- Clients race each other; every race has a winner. -/
def runConditional (c : StressConfig) (segment : String) (s : Scheduler) : Scheduler × Tally :=
  races c segment (c.operations * c.tasks) (List.replicate c.tasks c.operations) (s, default)

/-- Begins a read of bytes that are still to come. -/
def follow (segment : String) (total : Nat) (state : Scheduler × List Reader) :
    Scheduler × List Reader :=
  match state.1.ask (.read segment 0 total) with
  | (s, .ok (.reader reader)) => (s, state.2 ++ [reader])
  | (s, _) => (s, state.2)

/-- Readers follow the segment while one client appends; they must all see the same. -/
def runTailing (c : StressConfig) (segment : String) (s : Scheduler) : Scheduler × Tally :=
  let (s, readers) :=
    Nat.repeat (follow segment (c.operations * c.payloadSize)) c.tasks (s, [])
  let (s, tally) := (numberedPayloads c.operations c.payloadSize).foldl
    (fun (state : Scheduler × Tally) payload =>
      let (s, result) := state.1.ask (.append segment payload [])
      (s, state.2.count result)) (s, default)
  let seen := readers.map fun reader => (reader.toEnd s.engine false).2.1
  if seen.all fun poll => seen.head? == some poll then (s, tally)
  else (s, { tally with failed := tally.failed + 1 })

/-- Runs a workload on a segment. -/
def run (w : Workload) (c : StressConfig) (segment : String) (s : Scheduler) :
    Scheduler × Tally :=
  match w with
  | appends => runAppends c segment s
  | conditional => runConditional c segment s
  | tailing => runTailing c segment s

end Workload

end Segments
