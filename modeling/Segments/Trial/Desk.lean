import Segments.Order.Pending
import Segments.Order.TurnLine
import Segments.Table

/-!
# Turns and registrations under keys

A trial knows the turns and the registrations that it holds by keys of its own. What a key stood
for is given back when the key is used for something else.
-/

namespace Segments

/-- A line of turns with the tickets that are held, by key. -/
structure TurnDesk where
  /-- The line. -/
  line : TurnLine
  /-- The tickets. -/
  tickets : Table Int Nat

/-- Operations in flight with the registrations and the waits that are held, by key. -/
structure PendingDesk where
  /-- The operations in flight. -/
  pending : Pending
  /-- The registrations. -/
  kept : Table Int Registration
  /-- The names and barriers that are waited for. -/
  waits : Table Int (String × Nat)

/-- What a look at a ticket shows. -/
inductive TurnSight where
  /-- The turn with its ticket. -/
  | held (ticket : Nat)
  /-- The turn has not come. -/
  | waiting
  /-- There is no ticket. -/
  | gone
  deriving DecidableEq, Repr

namespace TurnDesk

/-- A desk without tickets. -/
def empty : TurnDesk := ⟨.empty, .empty⟩

/-- Gives the ticket of a key back. -/
def drop (d : TurnDesk) (key : Int) : TurnDesk :=
  match d.tickets.get? key with
  | some ticket => ⟨d.line.leave ticket, d.tickets.erase key⟩
  | none => d

/-- Looks whether the turn of a ticket has come. -/
def sight (d : TurnDesk) (ticket : Nat) : TurnSight :=
  if d.line.holds ticket then .held ticket else .waiting

/-- Looks for the turn of a key and takes it up. -/
def poll (d : TurnDesk) (key : Int) : TurnDesk × TurnSight :=
  match d.tickets.get? key with
  | none => (d, .gone)
  | some ticket =>
    let d := { d with line := d.line.takeUp ticket }
    (d, d.sight ticket)

/-- Gets in line under a key; what the key stood for is given back first. -/
def acquire (d : TurnDesk) (key : Int) : TurnDesk × TurnSight :=
  let d := d.drop key
  let (line, ticket) := d.line.arrive
  let d : TurnDesk := ⟨line, d.tickets.insert key ticket⟩
  (d, d.sight ticket)

end TurnDesk

namespace PendingDesk

/-- A desk without registrations. -/
def empty : PendingDesk := ⟨.empty, .empty, .empty⟩

/-- Ends the registration of a key. -/
def drop (d : PendingDesk) (key : Int) : PendingDesk :=
  match d.kept.get? key with
  | some r => { d with pending := d.pending.release r, kept := d.kept.erase key }
  | none => d

/-- Registers an operation on a name under a key and tells its ticket; what the key stood for
ends afterwards. -/
def register (d : PendingDesk) (key : Int) (name : String) : PendingDesk × Nat :=
  let (pending, r) := d.pending.register name
  let d := { d with pending }.drop key
  ({ d with kept := d.kept.insert key r }, r.ticket)

/-- Whether the wait of a key is over; then it is forgotten. -/
def poll (d : PendingDesk) (key : Int) : PendingDesk × Bool :=
  match d.waits.get? key with
  | none => (d, true)
  | some (name, barrier) =>
    if d.pending.isClear name barrier then ({ d with waits := d.waits.erase key }, true)
    else (d, false)

/-- Waits under a key for the operations on a name up to a barrier. -/
def wait (d : PendingDesk) (key : Int) (name : String) (barrier : Nat) : PendingDesk × Bool :=
  { d with waits := d.waits.insert key (name, barrier) }.poll key

end PendingDesk

end Segments
