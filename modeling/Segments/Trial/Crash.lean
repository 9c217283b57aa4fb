import Segments.Engine.Calls
import Segments.Engine.Contents

/-!
# Recovery after a crash

A store whose journal fails after a given number of bytes is written to until it no longer
acknowledges anything. Then it is opened again over what is left, and what it holds is compared
with what was acknowledged.
-/

namespace Segments

/-- What a check of recovery found. -/
structure CrashReport where
  /-- What was checked. -/
  description : String
  /-- The number of bytes that were acknowledged. -/
  acknowledged : Nat
  /-- The number of bytes that were there afterwards. -/
  recovered : Nat
  /-- What is wrong. -/
  failure : Option String
  deriving DecidableEq, Repr

namespace CrashReport

/-- Everything acknowledged is there and nothing else. -/
def pass (description : String) (length : Nat) : CrashReport := ⟨description, length, length, none⟩

/-- Something is wrong. -/
def fail (description : String) (acknowledged recovered : Nat) (failure : String) : CrashReport :=
  ⟨description, acknowledged, recovered, some failure⟩

/-- Whether nothing is wrong. -/
def passed (c : CrashReport) : Bool := c.failure.isNone

/-- The structural form of a list of names and lengths. -/
def formOfLengths (lengths : List (String × Nat)) : String :=
  "[" ++ ", ".intercalate (lengths.map fun l => "(" ++ Text.quoted l.1 ++ s!", {l.2})") ++ "]"

/-- What is there is not what was acknowledged. -/
def mismatch (description : String) (created : Bool) (acknowledged : Nat)
    (recovered : List (String × Nat)) : CrashReport :=
  fail description acknowledged ((recovered.head?.map Prod.snd).getD 0)
    ("recovered " ++ formOfLengths recovered ++ s!", created={created}")

/-- Compares what was acknowledged with what is there. -/
def compare (description : String) (created : Bool) (acknowledged : Nat)
    (recovered : List (String × Nat)) : CrashReport :=
  let expected := if created then [acknowledged] else []
  if recovered.map Prod.snd = expected then pass description acknowledged
  else mismatch description created acknowledged recovered

end CrashReport

namespace Scheduler

/-- Appends payloads until one is not acknowledged; tells how many bytes were. -/
def appendUntilRefused (name : String) : List Bytes → Scheduler → Scheduler × Nat
  | [], s => (s, 0)
  | payload :: rest, s =>
    match s.ask (.append name payload []) with
    | (s, .error _) => (s, 0)
    | (s, .ok _) =>
      let (s, acknowledged) := appendUntilRefused name rest s
      (s, payload.length + acknowledged)

/-- Creates a segment and appends payloads to it; tells whether it was created and how many
bytes were acknowledged. -/
def createAndFill (name : String) (payloads : List Bytes) (s : Scheduler) :
    Scheduler × Bool × Nat :=
  match s.ask (.create name []) with
  | (s, .error _) => (s, false, 0)
  | (s, .ok _) =>
    let (s, acknowledged) := appendUntilRefused name payloads s
    (s, true, acknowledged)

end Scheduler

/-- Payloads of one size; each repeats the low byte of its number. -/
def numberedPayloads (count size : Nat) : List Bytes :=
  (List.range count).map fun i => List.replicate size (UInt8.ofNat i)

namespace CrashReport

/-- Checks recovery after the journal of a new store failed past `crashAfter` bytes while one
segment was created and appended to. -/
def duringAppends (clock : AttributeValue) (crashAfter appends payloadSize : Nat) : CrashReport :=
  let description := s!"crash after {crashAfter} journal bytes"
  match Contents.emptyLog.openStore .standard clock with
  | (_, _, .error e) => fail description 0 0 e.message
  | (_, _, .ok engine) =>
    let armed := (Scheduler.ofEngine engine).modifySwitch fun s =>
      { s with threshold := some crashAfter }
    let (crashed, created, acknowledged) :=
      armed.createAndFill "crash" (numberedPayloads appends payloadSize)
    match crashed.engine.contents.openStore .standard clock with
    | (_, _, .error e) => fail description acknowledged 0 e.message
    | (_, _, .ok engine) =>
      match (Scheduler.ofEngine engine).lengths with
      | .error e => fail description acknowledged 0 e.message
      | .ok recovered => compare description created acknowledged recovered

end CrashReport

end Segments
