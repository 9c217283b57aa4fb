/-!
# Turns in order of arrival

One caller at a time has the turn; the others stand in line. Whoever gives up the turn passes
it to the first in line, to whom it is then offered until taken up. Tickets number the callers
by arrival, starting at one. A caller may leave at any point: from the line, with the offer, or
with the turn.
-/

namespace Segments

/-- Who has the turn. -/
inductive Turn where
  /-- Nobody. -/
  | free
  /-- It waits to be taken up by the caller with this ticket. -/
  | offered (ticket : Nat)
  /-- The caller with this ticket has it. -/
  | held (ticket : Nat)
  deriving DecidableEq, Repr, Inhabited

/-- The turn and the line of those who wait for it. -/
structure TurnLine where
  /-- The last ticket given out. -/
  issued : Nat
  /-- Who has the turn. -/
  turn : Turn
  /-- The tickets of those in line, first come first. -/
  line : List Nat
  deriving DecidableEq, Repr, Inhabited

namespace TurnLine

/-- Nobody has come yet. -/
def empty : TurnLine := ⟨0, .free, []⟩

/-- A caller arrives: it gets the next ticket, and the turn if that is free. -/
def arrive (l : TurnLine) : TurnLine × Nat :=
  let ticket := l.issued + 1
  match l.turn with
  | .free => (⟨ticket, .held ticket, l.line⟩, ticket)
  | _ => (⟨ticket, l.turn, l.line ++ [ticket]⟩, ticket)

/-- Whether a caller has the turn. -/
def holds (l : TurnLine) (ticket : Nat) : Bool := l.turn == .held ticket

/-- A caller takes up the turn if it is offered to it. -/
def takeUp (l : TurnLine) (ticket : Nat) : TurnLine :=
  if l.turn = .offered ticket then { l with turn := .held ticket } else l

/-- The turn goes to the first in line. -/
def pass (l : TurnLine) : TurnLine :=
  match l.line with
  | [] => { l with turn := .free }
  | first :: rest => { l with turn := .offered first, line := rest }

/-- A caller leaves, from wherever it is. -/
def leave (l : TurnLine) (ticket : Nat) : TurnLine :=
  if l.turn = .held ticket ∨ l.turn = .offered ticket then l.pass
  else { l with line := l.line.filter (· != ticket) }

/-- The number of callers that have come and not got the turn. -/
def waiting (l : TurnLine) : Nat :=
  match l.turn with
  | .offered _ => l.line.length + 1
  | _ => l.line.length

end TurnLine

end Segments
