import Segments.Engine.Operation

/-!
# The scheduler

The scheduler runs accepted operations one at a time, in the order in which they were submitted
or woken. It only decides which operation goes on next; what that does is decided by the engine.
An operation is woken when a turn is offered to it, and whoever waits for earlier operations is
woken whenever one ends, to look again. An operation that outlives its timeout or is cancelled is
abandoned when it is next looked at.

Look-ups in the attribute store happen aside of the operations: the store is read, and what was
read is taken up, when nothing else can go on. A gate can hold what was read; the gate does not
learn when the operation is abandoned.

Time passes only while somebody waits for an operation that cannot go on.
-/

namespace Segments

/-- An operation under the care of the scheduler. -/
structure Task where
  /-- The operation. -/
  operation : Operation
  /-- The longest time that it may take, in nanoseconds. -/
  timeout : Nat
  /-- The moment at which it is given up; set when it is first looked at. -/
  deadline : Option Nat
  /-- Whether its cancellation was asked for. -/
  cancelled : Bool
  /-- Whether nobody is left to collect its answer. -/
  unattended : Bool

/-- The gate in front of what look-ups have read. -/
structure Gate where
  /-- Whether the next look-up is to be held. -/
  armed : Bool
  /-- The operations whose look-ups are held, first come first. -/
  held : List Nat
  deriving DecidableEq, Repr

namespace Gate

/-- The gate that nothing stops at. -/
def opened : Gate := ⟨false, []⟩

instance : Inhabited Gate := ⟨opened⟩

/-- Whether the look-up of an operation is held. -/
def holds (g : Gate) (task : Nat) : Bool := g.held.contains task

/-- A look-up comes to the gate, which stops at most one at a time of arming. -/
def meet (g : Gate) (task : Nat) : Gate :=
  if g.armed then ⟨false, g.held ++ [task]⟩ else g

end Gate

/-- A store with the operations that run on it. -/
structure Scheduler where
  /-- The state of the store. -/
  engine : Engine
  /-- The operations that were accepted and not yet collected. -/
  tasks : Table Nat Task
  /-- The number of the next operation. -/
  nextTask : Nat
  /-- The operations that were submitted or woken, first come first. -/
  ready : List Nat
  /-- The operations whose look-ups came back, first come first. -/
  returned : List Nat
  /-- The operations that wait for earlier ones to end, in the order in which they last looked. -/
  watching : List Nat
  /-- The time since the store was opened, in nanoseconds. -/
  now : Nat
  /-- The gate. -/
  gate : Gate
  /-- What was reported, in order. -/
  events : Array Event

namespace Task

/-- Whether the operation has ended. -/
def isFinished (t : Task) : Bool := t.operation.phase.isFinished

/-- The name of the operation. -/
def name (t : Task) : String := t.operation.request.operation

/-- The structural form of the handle of an operation. -/
def form (t : Task) : String :=
  "OpHandle \x7b operation: " ++ Text.quoted t.name ++ s!", finished: {t.isFinished} \x7d"

/-- The answer of an operation that has ended. -/
def result? (t : Task) : Option (Except SegmentError Answer) :=
  match t.operation.phase with
  | .finished result => some result
  | _ => none

/-- Whether the time of the operation is up. -/
def isDue (t : Task) (now : Nat) : Bool := !t.isFinished && t.deadline.any (· ≤ now)

/-- Whether the operation waits in line at a place. -/
def standsAt (t : Task) (p : Place) : Bool :=
  match t.operation.phase with
  | .inLine _ _ place _ => place == p
  | _ => false

end Task

namespace Scheduler

/-- The scheduler of a store on which nothing runs. -/
def ofEngine (engine : Engine) : Scheduler where
  engine := engine
  tasks := .empty
  nextTask := 0
  ready := []
  returned := []
  watching := []
  now := 0
  gate := .opened
  events := #[]

instance : Inhabited Scheduler := ⟨ofEngine default⟩

/-- Adds reports. -/
def report (s : Scheduler) (events : List Event) : Scheduler :=
  { s with events := s.events ++ events }

/-- Whether an operation is about to be looked at. -/
def isQueued (s : Scheduler) (id : Nat) : Bool := s.ready.contains id || s.returned.contains id

/-- An operation is to be looked at. -/
def wake (s : Scheduler) (id : Nat) : Scheduler :=
  if s.isQueued id then s else { s with ready := s.ready ++ [id] }

/-- The look-up of an operation came back. -/
def comeBack (s : Scheduler) (id : Nat) : Scheduler :=
  if s.isQueued id then s else { s with returned := s.returned ++ [id] }

/-- Puts an operation in the place of what it was before. -/
def store (s : Scheduler) (id : Nat) (t : Task) (engine : Engine) (events : List Event) :
    Scheduler :=
  { s with engine, tasks := s.tasks.modify id fun _ => t }.report events

/-- The scheduler without an operation. -/
def forget (s : Scheduler) (id : Nat) : Scheduler := { s with tasks := s.tasks.erase id }

/-- Drops the answer of an operation that nobody will collect. -/
def discard (s : Scheduler) (id : Nat) (t : Task) : Scheduler :=
  match t.result? with
  | some (.ok (.reader reader)) =>
    { s.forget id with engine := s.engine.closeReader reader }
  | some _ => s.forget id
  | none => s

/-- Wakes the operation to which the turn that a place once had is now offered. -/
def wakeNext (s : Scheduler) (p : Place) : Scheduler :=
  match (s.engine.entry p.segment).turns.turn with
  | .offered ticket =>
    match s.tasks.entries.find? fun e => e.2.standsAt ⟨p.segment, ticket⟩ with
    | some (id, _) => s.wake id
    | none => s
  | _ => s

/-- Wakes everyone who waits for earlier operations. -/
def wakeWatching (s : Scheduler) : Scheduler :=
  s.watching.foldl wake { s with watching := [] }

/-- An operation has ended and left its places in line. -/
def conclude (s : Scheduler) (id : Nat) (t : Task) (places : List Place) : Scheduler :=
  let s := (places.foldl wakeNext s).wakeWatching
  if t.unattended then s.discard id t else s

/-- The report that an operation was given up for its time. -/
def timeoutEvent (t : Task) : Event :=
  ⟨.warn, "operation timed out",
    [("operation", .text t.name), ("timeout", .text (Text.duration t.timeout))]⟩

/-- Gives an operation up. -/
def abandon (s : Scheduler) (id : Nat) (t : Task) (e : SegmentError) (events : List Event) :
    Scheduler :=
  let places := t.operation.phase.places
  let (engine, operation) := s.engine.abandon t.operation e
  let t := { t with operation }
  { s.store id t engine events with watching := s.watching.filter (· != id) }.conclude id t places

/-- What a look-up has read comes to the gate, unless it is held there already. -/
def meetGate (s : Scheduler) (id : Nat) : Scheduler :=
  if s.gate.holds id then s
  else
    let s := { s with gate := s.gate.meet id }
    if s.gate.holds id then s else s.comeBack id

/-- Leaves an operation where it has to wait. -/
def leaveWaiting (s : Scheduler) (id : Nat) (t : Task) : Scheduler :=
  match t.operation.phase with
  | .accepted => { s with watching := s.watching.filter (· != id) ++ [id] }
  | .fetching .. => s.comeBack id
  | .fetched .. => s.meetGate id
  | _ => s

/-- Lets an operation go on as far as it can, and gives it up if its time is over then. -/
def proceed (s : Scheduler) (id : Nat) (t : Task) : Scheduler :=
  let t := { t with deadline := some (t.deadline.getD (s.now + t.timeout)) }
  let places := t.operation.phase.places
  let (engine, operation, events) :=
    if s.gate.holds id then (s.engine, t.operation, []) else s.engine.advance t.operation
  let t := { t with operation }
  let s := s.store id t engine events
  if t.isFinished then s.conclude id t places
  else if t.isDue s.now then
    s.abandon id t (.timeout t.name t.timeout) [timeoutEvent t]
  else s.leaveWaiting id t

/-- Looks at one operation. -/
def poll (s : Scheduler) (id : Nat) : Scheduler :=
  match s.tasks.get? id with
  | none => s
  | some t =>
    if t.isFinished then s
    else if t.cancelled then s.abandon id t (.cancelled (t.name ++ " was cancelled")) []
    else s.proceed id t

/-- Looks at the operation that goes on next. -/
def step (s : Scheduler) : Scheduler :=
  match s.ready, s.returned with
  | id :: rest, _ => { s with ready := rest }.poll id
  | [], id :: rest => { s with returned := rest }.poll id
  | [], [] => s

/-- Whether no operation is about to be looked at. -/
def isQuiet (s : Scheduler) : Bool := s.ready.isEmpty && s.returned.isEmpty

/-- Looks at operations until none goes on, at most `fuel` times. -/
def run : Nat → Scheduler → Scheduler
  | 0, s => s
  | fuel + 1, s => if s.isQuiet then s else run fuel s.step

/-- Operations are not looked at more often than this before none goes on: each that ends may
make all others look again. -/
def stepBound (s : Scheduler) : Nat := 8 * (s.tasks.size + 1) * (s.tasks.size + 1)

/-- Lets operations run until none can go on. -/
def settle (s : Scheduler) : Scheduler := run s.stepBound s

/-- Submits a request; gives the number of the accepted operation. -/
def submit (s : Scheduler) (request : Request) (timeout : Nat) :
    Except ArgumentError (Scheduler × Nat) :=
  match s.engine.accept request timeout with
  | .error e => .error e
  | .ok (engine, operation) =>
    .ok ({ s with
      engine
      tasks := s.tasks.insert s.nextTask ⟨operation, timeout, none, false, false⟩
      ready := s.ready ++ [s.nextTask]
      nextTask := s.nextTask + 1 }, s.nextTask)

/-- Whether an operation has ended. -/
def isFinished (s : Scheduler) (id : Nat) : Bool :=
  (s.tasks.get? id).any Task.isFinished

/-- Asks for the cancellation of an operation. -/
def cancel (s : Scheduler) (id : Nat) : Scheduler :=
  if s.isFinished id then s
  else { s with tasks := s.tasks.modify id fun t => { t with cancelled := true } }.wake id

/-- Leaves an operation to itself: it goes on, and its answer is dropped when it ends. -/
def leave (s : Scheduler) (id : Nat) : Scheduler :=
  match s.tasks.get? id with
  | none => s
  | some t =>
    { s with tasks := s.tasks.modify id fun t => { t with unattended := true } }.discard id t

/-- Leaves all operations to themselves. -/
def leaveAll (s : Scheduler) : Scheduler := s.tasks.keys.foldl leave s

/-- Whether no operation is under way. -/
def isIdle (s : Scheduler) : Bool := s.tasks.values.all Task.isFinished

/-- The deadlines of the operations that have not ended. -/
def deadlines (s : Scheduler) : List Nat :=
  (s.tasks.values.filter fun t => !t.isFinished).filterMap Task.deadline

/-- The operations whose time is up. -/
def due (s : Scheduler) : List Nat :=
  (s.tasks.entries.filter fun e => e.2.isDue s.now).map Prod.fst

/-- Lets time pass to the next deadline, and operations run from there. -/
def passTime (s : Scheduler) : Scheduler :=
  match s.deadlines.min? with
  | none => s
  | some t =>
    let s := { s with now := max s.now t }
    (s.due.foldl wake s).settle

/-- Lets operations run and time pass until an operation has ended, over at most `fuel`
deadlines. -/
def waitFor (id : Nat) : Nat → Scheduler → Scheduler
  | 0, s => s
  | fuel + 1, s => if s.isFinished id then s else waitFor id fuel s.passTime

/-- Waits for an operation and collects its answer. -/
def collect (s : Scheduler) (id : Nat) : Scheduler × Option (Except SegmentError Answer) :=
  let s := if s.isFinished id then s else s.settle.waitFor id (s.tasks.size + 1)
  match (s.tasks.get? id).bind Task.result? with
  | some result => (s.forget id, some result)
  | none => (s, none)

/-- Submits a request and waits for its answer. -/
def call (s : Scheduler) (request : Request) (timeout : Nat) :
    Scheduler × Except ArgumentError (Option (Except SegmentError Answer)) :=
  match s.submit request timeout with
  | .error e => (s, .error e)
  | .ok (s, id) =>
    let (s, result) := s.collect id
    (s, .ok result)

/-- Arms the gate. -/
def armGate (s : Scheduler) : Scheduler := { s with gate := { s.gate with armed := true } }

/-- Opens the gate; what it held can go on. -/
def openGate (s : Scheduler) : Scheduler :=
  s.gate.held.foldl comeBack { s with gate := .opened }

/-- Drops the attributes of a segment from memory. -/
def evict (s : Scheduler) (name : String) : Scheduler × Except SegmentError Nat :=
  let (engine, events, result) := s.engine.evict name
  ({ s with engine }.report events, result)

/-- Shuts the store down. -/
def shutdown (s : Scheduler) : Scheduler × Except SegmentError Unit :=
  let (engine, events, result) := s.engine.shutdown
  ({ s with engine }.report events, result)

/-- Makes the attribute store refuse writes, or take them again. -/
def refuseAttributes (s : Scheduler) (refusing : Bool) : Scheduler :=
  { s with engine := { s.engine with store := { s.engine.store with refusing } } }

/-- Changes the crash switch of the journal. -/
def modifySwitch (s : Scheduler) (f : CrashSwitch → CrashSwitch) : Scheduler :=
  let log := s.engine.log
  { s with engine := { s.engine with
      log := { log with device := { log.device with switch := f log.device.switch } } } }

end Scheduler

end Segments
