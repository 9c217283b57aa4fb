import Segments.Engine.Commit
import Segments.Engine.Request

/-!
# Operations

An accepted request runs as an operation. `advance` takes an operation from one point where it
may have to wait to the next: for earlier operations on the segment, for its turn, or for the
attribute store. Between two such points nothing else happens, and a change is made between its
last one and its end. `abandon` is what becomes of an operation that is given up where it waits:
it leaves its places in line and has changed nothing.
-/

namespace Segments

/-- The place of an operation in the line of a segment. -/
structure Place where
  /-- The segment. -/
  segment : SegmentId
  /-- The ticket. -/
  ticket : Nat
  deriving DecidableEq, Repr

/-- How far an operation has come. -/
inductive Phase where
  /-- It has not begun, or waits for earlier operations. -/
  | accepted
  /-- It has some turns and waits for one more; others may have to follow. -/
  | inLine (action : Action) (held : List Place) (place : Place) (wanted : List SegmentId)
  /-- The attribute store is to be read. -/
  | fetching (segment : SegmentId) (lookup : AttributeLookup) (cache : Bool)
  /-- The attribute store was read. -/
  | fetched (segment : SegmentId) (lookup : AttributeLookup) (cache : Bool)
    (values : AttributeValues)
  /-- It has ended. -/
  | finished (result : Except SegmentError Answer)

/-- An accepted request. -/
structure Operation where
  /-- What was asked for. -/
  request : Request
  /-- The ticket of the operation accepted last before this one. -/
  barrier : Nat
  /-- The registrations to be released at the end. -/
  registrations : List Registration
  /-- How far it has come. -/
  phase : Phase

namespace Phase

/-- The places in line of an operation, the latest first. -/
def places : Phase → List Place
  | inLine _ held place _ => place :: held
  | _ => []

/-- Whether the operation has ended. -/
def isFinished : Phase → Bool
  | finished _ => true
  | _ => false

/-- The phase of an operation that ended in a failed check, or went on from it. -/
def ofCheck {α : Type} (s : Engine) (check : Except SegmentError α)
    (next : α → Engine × Phase × List Event) : Engine × Phase × List Event :=
  match check with
  | .error e => (s, .finished (.error e), [])
  | .ok a => next a

end Phase

namespace Engine

/-- Leaves places in line, one after another. -/
def leaveAll (s : Engine) (places : List Place) : Engine :=
  places.foldl (fun s p => s.modifyTurns p.segment fun l => l.leave p.ticket) s

/-- Makes a change and ends. -/
def conclude (s : Engine) (action : Action) : Engine × Phase × List Event :=
  let (s, events, result) := s.execute action
  (s, .finished result, events)

/-- Whether a place in line has become a turn. -/
def hasTurn (s : Engine) (p : Place) : Bool := (s.entry p.segment).turns.holds p.ticket

/-- Takes the turns still wanted, waits for the first that is not free, or makes the change
with all of them and gives them back. -/
def takeTurns (s : Engine) (action : Action) (held : List Place) :
    List SegmentId → Engine × Phase × List Event
  | [] =>
    let (s, phase, events) := Phase.ofCheck s s.requireOpen fun () => s.conclude action
    (s.leaveAll held, phase, events)
  | id :: wanted =>
    let (turns, ticket) := (s.entry id).turns.arrive
    let s := s.modifyTurns id fun _ => turns
    let place : Place := ⟨id, ticket⟩
    if s.hasTurn place then s.takeTurns action (place :: held) wanted
    else (s, .inLine action held place wanted, [])

/-- Makes a change of a live segment in turn. -/
def inTurn (s : Engine) (name : String) (action : SegmentId → Action) :
    Engine × Phase × List Event :=
  Phase.ofCheck s s.requireOpen fun () =>
    Phase.ofCheck s (s.resolve name) fun entry =>
      s.takeTurns (action entry.id) [] [entry.id]

/-- Makes a change of a live segment at once. -/
def atOnce (s : Engine) (name : String) (action : SegmentId → Action) :
    Engine × Phase × List Event :=
  Phase.ofCheck s s.requireOpen fun () =>
    Phase.ofCheck s (s.resolve name) fun entry => s.conclude (action entry.id)

/-- Makes a merge with the turns of both segments, the older segment first. -/
def mergeInTurn (s : Engine) (target source : String) : Engine × Phase × List Event :=
  Phase.ofCheck s s.requireOpen fun () =>
    Phase.ofCheck s (s.resolve target) fun t =>
      Phase.ofCheck s (s.resolve source) fun u =>
        let order := if t.id < u.id then [t.id, u.id] else [u.id, t.id]
        s.takeTurns (.merge t.id u.id) [] order

/-- Takes what memory knows of some attributes; the others are to be fetched. -/
def beginLookup (s : Engine) (name : String) (ids : List AttributeId) (cache : Bool) :
    Engine × Phase × List Event :=
  Phase.ofCheck s s.requireOpen fun () =>
    Phase.ofCheck s (s.resolve name) fun entry =>
      Phase.ofCheck s (entry.state.requireReadable entry.name) fun () =>
        let lookup := AttributeLookup.ofTiers entry.metadata.attributes ids
        let s := s.touch entry.id ids
        if lookup.missing.isEmpty then
          (s, .finished (.ok (.attributes (lookup.answer []))), [])
        else (s, .fetching entry.id lookup cache, [])

/-- Answers a look-up from what was fetched, which may become resident on the way. -/
def finishLookup (s : Engine) (id : SegmentId) (lookup : AttributeLookup) (cache : Bool)
    (values : AttributeValues) : Engine × Phase × List Event :=
  let entry := s.entry id
  if cache ∧ entry.state = .active then
    let (attributes, current, events) := lookup.cacheFetched entry.metadata.attributes s.store
      id entry.name s.config.maxCachedAttributes values
    (s.modifyEntry id fun e => { e with metadata := { e.metadata with attributes } },
      .finished (.ok (.attributes (lookup.answer current))), events)
  else (s, .finished (.ok (.attributes (lookup.answer values))), [])

/-- Begins a read. -/
def beginRead (s : Engine) (name : String) (offset maxLength : Nat) :
    Engine × Phase × List Event :=
  Phase.ofCheck s s.requireOpen fun () =>
    let (s, result) := s.openReader name offset maxLength
    (s, .finished (result.map .reader), [])

/-- Describes a segment, unless operations accepted by a barrier are still in flight. -/
def describe (s : Engine) (name : String) (wait : Bool) (barrier : Nat) :
    Engine × Phase × List Event :=
  if wait ∧ !s.pending.isClear name barrier then (s, .accepted, [])
  else (s, .finished ((s.properties name).map .properties), [])

/-- Begins a request that was accepted after a barrier. -/
def begin (s : Engine) (barrier : Nat) : Request → Engine × Phase × List Event
  | .create name updates =>
    Phase.ofCheck s s.requireOpen fun () => s.conclude (.create name updates)
  | .append name data updates => s.atOnce name fun id => .append id data updates none
  | .appendAt name offset data updates =>
    s.inTurn name fun id => .append id data updates (some offset)
  | .update name updates => s.atOnce name fun id => .update name id updates
  | .lookup name ids cache => s.beginLookup name ids cache
  | .read name offset maxLength => s.beginRead name offset maxLength
  | .info name wait => s.describe name wait barrier
  | .merge target source => s.mergeInTurn target source
  | .sealing name => s.inTurn name fun id => .sealing name id
  | .delete name => s.inTurn name fun id => .delete name id
  | .truncate name offset => s.inTurn name fun id => .truncate name id offset

/-- Takes an operation to the next point where it may have to wait, or to its end. -/
def advancePhase (s : Engine) (o : Operation) : Engine × Phase × List Event :=
  match o.phase with
  | .accepted => s.begin o.barrier o.request
  | .inLine action held place wanted =>
    let s := s.modifyTurns place.segment fun l => l.takeUp place.ticket
    if s.hasTurn place then s.takeTurns action (place :: held) wanted
    else (s, .inLine action held place wanted, [])
  | .fetching id lookup cache =>
    (s, .fetched id lookup cache (s.store.lookup id lookup.missing), [])
  | .fetched id lookup cache values => s.finishLookup id lookup cache values
  | .finished result => (s, .finished result, [])

/-- Ends the registrations of an operation that has ended. -/
def settle (s : Engine) (o : Operation) : Engine :=
  if o.phase.isFinished then { s with pending := s.pending.releaseAll o.registrations } else s

/-- Before it has ended an operation keeps its registrations. -/
theorem settle_of_unfinished {s : Engine} {o : Operation} (h : o.phase.isFinished = false) :
    s.settle o = s := by
  rw [settle, h, if_neg Bool.false_ne_true]

/-- Takes an operation one step further. -/
def advance (s : Engine) (o : Operation) : Engine × Operation × List Event :=
  let (s, phase, events) := s.advancePhase o
  let o := { o with phase }
  (s.settle o, o, events)

/-- Gives an operation up where it waits. -/
def abandon (s : Engine) (o : Operation) (e : SegmentError) : Engine × Operation :=
  let s := s.leaveAll o.phase.places
  let o := { o with phase := .finished (.error e) }
  (s.settle o, o)

/-- Accepts a request, or rejects it. -/
def accept (s : Engine) (request : Request) (timeout : Nat) :
    Except ArgumentError (Engine × Operation) :=
  match request.validate s.config timeout with
  | .error e => .error e
  | .ok () =>
    let (pending, registrations) := s.pending.registerAll request.names
    .ok ({ s with pending }, ⟨request, s.pending.barrier, registrations, .accepted⟩)

end Engine

end Segments
