import Segments.Trial.Agreement
import Segments.Trial.Draw

/-!
# Samples

Random names, payloads, updates and actions, each kind with the promise that every sample keeps:
names are valid, attributes come from a small pool, sizes and numbers stay in their ranges, and
a store agrees with the model on every sequence of actions.
-/

namespace Segments

/-- How much a check by samples tries. -/
structure SampleConfig where
  /-- The number of samples. -/
  cases : Nat
  /-- The number of attempts to make a failing sample smaller. -/
  maxShrinks : Nat
  deriving DecidableEq, Repr

namespace SampleConfig

/-- The usual effort. -/
def standard : SampleConfig := ⟨256, 1000⟩

/-- Little effort. -/
def quick : SampleConfig := ⟨32, 100⟩

end SampleConfig

namespace Draw

/-- The lower case letters after the first one. -/
def letters : List Char := "bcdefghijklmnopqrstuvwxyz".toList

/-- A character that a name goes on with. -/
def nameChar : Draw Char := among 'a' (letters ++ "0123456789_".toList)

/-- The later part of a name, after a slash. -/
def namePart : Draw (List Char) := ('/' :: ·) <$> listBetween nameChar 1 15

/-- A segment name of one to three parts. -/
def segmentName : Draw String := do
  let first ← among 'a' letters
  let rest ← listBetween nameChar 0 15
  let parts ← listBetween namePart 0 2
  pure (String.ofList (first :: rest ++ parts.flatten))

/-- An attribute of the pool. -/
def attributeId : Draw AttributeId := do
  let low ← below 8
  pure ⟨0x5151, UInt64.ofNat low⟩

/-- A small attribute value. -/
def attributeValue : Draw AttributeValue := Int64.ofInt <$> between (-4) 3

/-- The payload of an append. -/
def payload : Draw Bytes := listBetween byte 0 63

/-- A rule of an update. -/
def updateRule : Draw UpdateRule := do
  let expected ← attributeValue
  among .replace [.replaceIfGreater, .replaceIfEquals expected, .accumulate, .setOnce]

/-- An update of an attribute of the pool. -/
def update : Draw Update := do
  let id ← attributeId
  let rule ← updateRule
  let value ← attributeValue
  pure ⟨id, rule, value⟩

/-- A batch without the updates whose attribute occurred before. -/
def distinct (updates : List Update) : List Update :=
  updates.foldl (fun kept u => if kept.any (·.id == u.id) then kept else kept ++ [u]) []

/-- A batch in which no attribute occurs twice. -/
def batch : Draw (List Update) := distinct <$> listBetween update 0 3

/-- An action; appends are the most frequent. -/
def action : Draw SegmentAction := do
  let data ← payload
  let updates ← batch
  let skew ← between (-2) 2
  let percent ← below 101
  among (.append data updates)
    [.append data updates, .append data updates, .append data updates, .appendAt skew data,
      .appendAt skew data, .update updates, .update updates, .update updates,
      .truncate percent, .sealing]

end Draw

/-- The kinds of sample. -/
inductive SampleKind where
  /-- Segment names. -/
  | name
  /-- Attributes. -/
  | attributeId
  /-- Payloads. -/
  | payload
  /-- Single updates. -/
  | update
  /-- Batches of updates. -/
  | batch
  /-- Actions. -/
  | action
  /-- Sequences of actions, of a length from `low` to below `high`. -/
  | sequence (low high : Nat)
  deriving DecidableEq, Repr

namespace Promise

/-- The name is a valid one. -/
def name (s : String) : Bool := (SegmentName.validate s Config.standard.maxNameLength).isOk

/-- The attribute is of the pool. -/
def attributeId (id : AttributeId) : Bool := id.high == 0x5151 && decide (id.low < 8)

/-- The payload is short. -/
def payload (data : Bytes) : Bool := decide (data.length < 64)

/-- The operand is small. -/
def update (u : Update) : Bool := decide (-4 ≤ u.value ∧ u.value ≤ 3)

/-- The batch is short and no attribute occurs twice. -/
def batch (updates : List Update) : Bool :=
  decide (updates.length < 4) && (Batch.firstRepeated? [] updates).isNone

/-- The fields of the action are in their ranges. -/
def action : SegmentAction → Bool
  | .append data updates => payload data && batch updates
  | .appendAt skew data => decide (-2 ≤ skew ∧ skew ≤ 2) && payload data
  | .update updates => batch updates
  | .truncate percent => decide (percent ≤ 100)
  | .sealing => true

/-- The pool of attributes. -/
def pool : List AttributeId := (List.range 8).map fun n => ⟨0x5151, UInt64.ofNat n⟩

/-- The sequence has a length in the range, and a store agrees with the model on it. -/
def sequence (low high : Nat) (actions : List SegmentAction) : Bool :=
  decide (low ≤ actions.length ∧ actions.length < high)
    && (Scheduler.ofEngine (.new .standard [] .empty 0)).agreesOn "m" actions pool

end Promise

namespace SampleKind

/-- Draws a sample and tells whether it keeps the promise. -/
def trial : SampleKind → Draw Bool
  | name => Promise.name <$> Draw.segmentName
  | attributeId => Promise.attributeId <$> Draw.attributeId
  | payload => Promise.payload <$> Draw.payload
  | update => Promise.update <$> Draw.update
  | batch => Promise.batch <$> Draw.batch
  | action => Promise.action <$> Draw.action
  | sequence low high =>
    Promise.sequence low high <$> Draw.listBetween Draw.action low (high - 1)

/-- How many of some samples keep the promise. -/
def keptOf (kind : SampleKind) (count : Nat) (seed : UInt64) : Nat :=
  ((Draw.listOf kind.trial count).sample seed).count true

end SampleKind

end Segments
