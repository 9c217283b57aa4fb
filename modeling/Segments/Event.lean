import Segments.Text.Json

/-!
# Events

What the engine reports while it works: a level, a message and named values. Some neighbouring
events come in no order of their own; they are sorted by the text of their fields.
-/

namespace Segments

/-- The importance of an event. -/
inductive Level where
  /-- Fine detail. -/
  | trace
  /-- Detail. -/
  | debug
  /-- What happened. -/
  | info
  /-- What should not have happened. -/
  | warn
  deriving DecidableEq, Repr

/-- A value that an event carries. -/
inductive EventValue where
  /-- A number. -/
  | number (n : Nat)
  /-- A truth value. -/
  | flag (b : Bool)
  /-- A text. -/
  | text (s : String)
  deriving DecidableEq, Repr

/-- One report of the engine. -/
structure Event where
  /-- The importance. -/
  level : Level
  /-- The message. -/
  message : String
  /-- The named values. -/
  fields : List (String × EventValue)
  deriving DecidableEq, Repr

namespace Level

/-- The name of a level. -/
def name : Level → String
  | trace => "trace"
  | debug => "debug"
  | info => "info"
  | warn => "warn"

end Level

namespace EventValue

/-- The text by which a value is sorted. -/
def key : EventValue → String
  | number n => toString n
  | flag b => toString b
  | text s => Json.string s

end EventValue

namespace Event

/-- The text by which neighbouring events without an order of their own are sorted. -/
def key (e : Event) : String :=
  ",".intercalate ((e.fields.mergeSort fun a b => decide (a.1 ≤ b.1)).map fun f =>
    Json.string f.1 ++ ":" ++ f.2.key)

/-- Whether an event comes in no order of its own among neighbours with its message. -/
def isUnordered (e : Event) : Bool :=
  e.message == "repairing attribute store"
    || e.message == "attribute write-through failed, keeping values in memory"

/-- Sorts neighbouring events without an order of their own. -/
def sortNeighbours (events : List Event) : List Event :=
  let groups := events.splitBy fun a b => a.isUnordered && a.message == b.message
  groups.flatMap fun g =>
    if g.all isUnordered then g.mergeSort fun a b => decide (a.key ≤ b.key) else g

end Event

end Segments
