/-!
# Operations in flight

Every accepted operation is registered under the names it concerns until it ends. Tickets
rise across all names, so that the operations accepted before a moment are those whose tickets
do not exceed the last one given out at that moment, the barrier.
-/

namespace Segments

/-- One registration. -/
structure Registration where
  /-- The segment name it concerns. -/
  name : String
  /-- The ticket, which no other registration has. -/
  ticket : Nat
  deriving DecidableEq, Repr

/-- The registrations of operations in flight. -/
structure Pending where
  /-- The last ticket given out. -/
  last : Nat
  /-- The live registrations. -/
  live : List Registration
  deriving DecidableEq, Repr, Inhabited

namespace Pending

/-- Nothing is in flight. -/
def empty : Pending := ⟨0, []⟩

/-- Registers an operation under a name. -/
def register (p : Pending) (name : String) : Pending × Registration :=
  let r : Registration := ⟨name, p.last + 1⟩
  (⟨p.last + 1, p.live ++ [r]⟩, r)

/-- Registers an operation under several names. -/
def registerAll (p : Pending) : List String → Pending × List Registration
  | [] => (p, [])
  | name :: names =>
    let (p', r) := p.register name
    let (p'', rs) := p'.registerAll names
    (p'', r :: rs)

/-- Ends a registration. -/
def release (p : Pending) (r : Registration) : Pending :=
  { p with live := p.live.filter (· != r) }

/-- Ends several registrations. -/
def releaseAll (p : Pending) (rs : List Registration) : Pending := rs.foldl release p

/-- The ticket of the operation accepted last. -/
def barrier (p : Pending) : Nat := p.last

/-- The number of operations in flight that concern a name. -/
def count (p : Pending) (name : String) : Nat :=
  (p.live.filter fun r => r.name == name).length

/-- Whether no operation that concerns a name and was accepted by a barrier is in flight. -/
def isClear (p : Pending) (name : String) (barrier : Nat) : Bool :=
  p.live.all fun r => r.name != name || decide (barrier < r.ticket)

end Pending

end Segments
