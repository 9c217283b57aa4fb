import Segments.Engine.Calls
import Segments.Trial.Shelf
import Segments.Trial.Succession

/-!
# Sessions

A session opens a store over contents that outlive it, closes it, and opens it again. It keeps
the reads and the handles of operations under names; they end with the store, except that reads
may be kept when everything else is dropped.

A store that is ended while operations are under way lives on until they have ended. They go on
whenever anything goes on, in one order with the operations of later stores, and on the contents
that these have left meanwhile.
-/

namespace Segments

namespace Contents

/-- Contents with the journal cut at a length, and perhaps all bits of one byte flipped. -/
def truncated (c : Contents) (length : Nat) (flipped : Option Nat) : Contents :=
  let kept := c.journal.take length
  { c with journal := match flipped with
    | some i => kept.modify i (· ^^^ 0xff)
    | none => kept }

end Contents

/-- The handle of an operation. -/
structure Handle where
  /-- The number of the operation. -/
  task : Nat
  /-- The name under which a read that the operation begins is kept. -/
  readName : String
  deriving DecidableEq, Repr

/-- How contents outlive a store. -/
inductive Backing where
  /-- Not at all: every store begins with nothing. -/
  | fresh
  /-- They stay, and several stores may work on them. -/
  | shared
  /-- They stay in a directory, of which one store at a time holds the lock. -/
  | directory (path : String)
  deriving DecidableEq, Repr

/-- A store that is opened and closed over contents that outlive it. -/
structure Session where
  /-- The configuration with which stores are opened. -/
  config : Config
  /-- The reading of the clock. -/
  clock : AttributeValue
  /-- How contents outlive a store. -/
  backing : Backing
  /-- What the last store left behind. -/
  kept : Contents
  /-- The open store. -/
  scheduler : Option Scheduler
  /-- The stores that were ended but are not gone, the last one first. -/
  left : List Scheduler
  /-- The reads, by name. -/
  reads : Table String Reader
  /-- The handles of operations, by name. -/
  handles : Table String Handle
  /-- What earlier stores reported. -/
  events : Array Event

namespace Session

/-- A session before its first store. -/
def new (config : Config) (clock : AttributeValue) (backing : Backing) (contents : Contents) :
    Session where
  config := config
  clock := clock
  backing := backing
  kept := contents
  scheduler := none
  left := []
  reads := .empty
  handles := .empty
  events := #[]

instance : Inhabited Session := ⟨new .standard 0 .shared .empty⟩

/-- The present contents. -/
def contents (s : Session) : Contents :=
  match s.scheduler with
  | some live => live.engine.contents
  | none => s.kept

/-- Everything reported so far. -/
def allEvents (s : Session) : Array Event :=
  match s.scheduler with
  | some live => s.events ++ live.events
  | none => s.events

/-- Ends the store and its handles but keeps the reads; contents and operations stay. -/
def dropStore (s : Session) : Session :=
  { s with
    kept := s.contents
    events := s.allEvents
    scheduler := none
    left := (s.scheduler.map fun live => { live.leaveAll with events := #[] }).toList ++ s.left
    handles := .empty }

/-- Ends the store with its reads and handles; contents and operations stay. -/
def close (s : Session) : Session :=
  let s := s.dropStore
  { s with left := s.left.filter fun old => !old.isIdle, reads := .empty }

/-- Adds reports. -/
def report (s : Session) (events : List Event) : Session :=
  match s.scheduler with
  | some live => { s with scheduler := some (live.report events) }
  | none => { s with events := s.events ++ events }

/-- The path of the directory whose lock somebody holds. -/
def lockedPath? (s : Session) : Option String :=
  match s.backing with
  | .directory path =>
    if s.scheduler.isSome || s.left.any fun old => !old.isIdle then some path else none
  | _ => none

/-- Opens a store over the contents; tells the names of its segments. -/
def openStore (s : Session) : Session × Except SegmentError (List String) :=
  let s := s.close
  match s.lockedPath? with
  | some path => (s, .error (.storeLocked path))
  | none =>
    let contents := if s.backing = .fresh then .empty else s.kept
    let (kept, events, result) := contents.openStore s.config s.clock
    match result with
    | .error e => ({ s with kept, events := s.events ++ events }, .error e)
    | .ok engine =>
      ({ s with
        kept
        events := s.events ++ events
        scheduler := some (.ofEngine engine) }, .ok engine.segmentNames)

/-- The session after another store has changed the contents. -/
def withContents (s : Session) (c : Contents) : Session :=
  match s.scheduler with
  | some live => { s with scheduler := some { live with engine := live.engine.withContents c } }
  | none => { s with kept := c }

/-- Changes the open store. -/
def modifyScheduler (s : Session) (f : Scheduler → Scheduler) : Session :=
  { s with scheduler := s.scheduler.map f }

/-- Whether an operation of the open store has ended. -/
def hasFinished (s : Session) (task : Nat) : Bool :=
  s.scheduler.any fun live => live.isFinished task

/-- The stores of the session in the order in which they were opened. -/
def succession (s : Session) : Succession :=
  .ofStores (if s.backing = .fresh then none else some s.contents)
    (s.left.reverse ++ s.scheduler.toList)

/-- The session after its stores have gone on. -/
def withSuccession (s : Session) (c : Succession) : Session :=
  let s := { s with
    events := s.events ++ c.events
    left := (c.stores.take s.left.length).reverse
    scheduler := s.scheduler.bind fun _ => c.stores.getLast? }
  match c.contents with
  | some contents => s.withContents contents
  | none => s

/-- Lets all operations run until none can go on. -/
def settle (s : Session) : Session :=
  if s.left.all Scheduler.isIdle then s.modifyScheduler Scheduler.settle
  else s.withSuccession s.succession.settle

/-- Damages the journal. -/
def damageJournal (s : Session) (d : Damage) : Session :=
  { s with
    kept := { s.kept with journal := d.apply s.kept.journal }
    scheduler := s.scheduler.map fun live =>
      { live with engine := live.engine.withJournal (d.apply live.engine.log.bytes) } }

/-- Damages the log of the attribute store. -/
def damageAttributes (s : Session) (d : Damage) : Session :=
  { s with
    kept := { s.kept with attributes := s.kept.attributes.damage d }
    scheduler := s.scheduler.map fun live =>
      let store := live.engine.store
      { live with engine := { live.engine with
          store := store.withLog (d.apply store.contents.bytes) } } }

/-- Forgets the values of an attribute store that has no log. -/
def forgetAttributes (s : Session) : Session :=
  { s with kept := { s.kept with attributes :=
    match s.kept.attributes with
    | .index _ => .index .empty
    | .log b => .log b } }

/-- Opens a second store over the same contents and drops it, unless a lock is in the way. -/
def openSecond (s : Session) : Session × Except SegmentError Unit :=
  match s.lockedPath? with
  | some path => (s, .error (.storeLocked path))
  | none =>
    let (kept, events, result) := s.kept.openStore s.config s.clock
    ({ s with kept }.report events, result.map fun _ => ())

/-- Opens a store over a copy of the contents with the journal cut; tells the length of each
segment. To ask for them lets all operations run. -/
def openTruncated (s : Session) (length : Nat) (flipped : Option Nat) :
    Session × Except SegmentError (List (String × Nat)) :=
  let (_, events, result) :=
    (s.contents.truncated length flipped).openStore .standard s.clock
  let s := s.report events
  match result with
  | .error e => (s, .error e)
  | .ok engine =>
    (if engine.names.isEmpty then s else s.settle, (Scheduler.ofEngine engine).lengths)

/-- Ends the read of a name. -/
def closeRead (s : Session) (name : String) : Session :=
  match s.reads.get? name with
  | none => s
  | some reader =>
    { s with reads := s.reads.erase name }.modifyScheduler fun live =>
      { live with engine := live.engine.closeReader reader }

/-- Keeps a read under a name; a read that had the name ends. -/
def keepRead (s : Session) (name : String) (reader : Reader) : Session :=
  let s := s.closeRead name
  { s with reads := s.reads.insert name reader }

/-- Drops a handle; its operation is left to itself. -/
def dropHandle (s : Session) (name : String) : Session :=
  match s.handles.get? name with
  | none => s
  | some h =>
    { s with handles := s.handles.erase name }.modifyScheduler fun live => live.leave h.task

/-- Keeps a handle under a name. -/
def keepHandle (s : Session) (name : String) (h : Handle) : Session :=
  let s := s.dropHandle name
  { s with handles := s.handles.insert name h }

/-- The session with another state of its open store. -/
def withScheduler (s : Session) (live : Scheduler) : Session := { s with scheduler := some live }

/-- Keeps a read that an answer brings under a name. -/
def keepAnswer (s : Session) (name : String) :
    Option (Except SegmentError Answer) → Session
  | some (.ok (.reader reader)) => s.keepRead name reader
  | _ => s

/-- Waits for an operation of the open store and keeps a read that it began. -/
def collect (s : Session) (h : Handle) : Session × Option (Except SegmentError Answer) :=
  let s := if s.hasFinished h.task then s else s.settle
  match s.scheduler with
  | none => (s, none)
  | some live =>
    let (live, result) := live.collect h.task
    ((s.withScheduler live).keepAnswer h.readName result, result)

/-- Waits for the operation of a handle that is then forgotten. -/
def redeem (s : Session) (name : String) (h : Handle) :
    Session × Option (Except SegmentError Answer) :=
  let (s, result) := s.collect h
  ({ s with handles := s.handles.erase name }, result)

/-- Submits a request to the open store, given with it, and waits for the answer; a read that
it begins is kept under a name. -/
def call (s : Session) (live : Scheduler) (request : Request) (timeout : Nat)
    (readName : String) : Session × Except ArgumentError (Option (Except SegmentError Answer)) :=
  match live.submit request timeout with
  | .error e => (s, .error e)
  | .ok (live, task) =>
    let (s, result) := (s.withScheduler live).collect ⟨task, readName⟩
    (s, .ok result)

/-- Opens a store again; the values of an attribute store without a log may be lost. -/
def reopen (s : Session) (forget : Bool) : Session × Except SegmentError (List String) :=
  (if forget then s.close.forgetAttributes else s.close).openStore

/-- The values that the attribute store has, whether a store is open or not. -/
def storedIndex (s : Session) : AttributeIndex :=
  match s.scheduler, s.contents.attributes.openStore with
  | some live, _ => live.engine.store.index
  | none, .ok (store, _) => store.index
  | none, .error _ => .empty

/-- The number of values that a fresh attribute store over the same log has. -/
def countStored (s : Session) : Session × Except SegmentError Nat :=
  match IndexLog.openLog s.contents.attributes.bytes with
  | .error e => (s, .error e)
  | .ok (log, events) => (s.report events, .ok log.index.size)

/-- The store that a read looks at, and whether it was dropped. -/
def readSource (s : Session) : Option (Engine × Bool) :=
  match s.scheduler, s.left with
  | some live, _ => some (live.engine, false)
  | none, old :: _ => some (old.engine, old.isIdle)
  | none, [] => none

/-- Lets a look at a read happen. -/
def pollRead (s : Session) (name : String)
    (look : Reader → Engine → Bool → Reader × Poll × List Event) : Session × Option Poll :=
  match s.reads.get? name, s.readSource with
  | some reader, some (engine, dropped) =>
    let (reader, poll, events) := look reader engine dropped
    ({ s with reads := s.reads.modify name fun _ => reader }.report events, some poll)
  | _, _ => (s, none)

end Session

end Segments
