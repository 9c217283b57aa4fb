import Segments.Attribute.Batch
import Segments.Attribute.Cache
import Segments.Attribute.Store

/-!
# The three tiers of attribute values

The value of an extended attribute is looked for in three places, and the first that knows it
wins: the cache, the values that the attribute store has not taken yet, and the attribute
store. Core attributes are in the cache or have no value. Changes go to the cache and, when
extended, through to the store; what the store refuses stays in the middle tier and is tried
again with the next change.

A look-up that misses memory has three phases, between which other changes may happen: what is
resident is taken first, then the store is read, then what was read is made resident. The
epoch counts changes, so the last phase can tell whether the values read are out of date.
-/

namespace Segments

/-- The attribute values of one segment that are in memory. -/
structure AttributeTiers where
  /-- Core values and recently used extended values. -/
  cache : AttributeCache
  /-- Extended values that the attribute store has not taken yet; no value is an entry here. -/
  unstored : Table AttributeId AttributeValue
  /-- How often extended attributes were changed, evicted or released. -/
  epoch : Nat
  deriving DecidableEq

namespace AttributeTiers

/-- No values. -/
def empty : AttributeTiers := ⟨.empty, .empty, 0⟩

instance : Inhabited AttributeTiers := ⟨empty⟩

/-- What memory knows of an attribute. -/
def resident? (t : AttributeTiers) (id : AttributeId) : Option AttributeValue :=
  (t.cache.peek id).or (t.unstored.get? id)

/-- The value of an attribute over all tiers. -/
def value (t : AttributeTiers) (store : AttributeStore) (segment : SegmentId)
    (id : AttributeId) : AttributeValue :=
  match t.resident? id with
  | some v => v
  | none => if id.isCore then nullValue else (store.get? segment id).getD nullValue

/-- Marks attributes as just used, in order. -/
def touchAll (t : AttributeTiers) (ids : List AttributeId) : AttributeTiers :=
  { t with cache := ids.foldl AttributeCache.touch t.cache }

/-- The report that the store refused a write. -/
def refusedEvent (name : String) (count : Nat) (e : SegmentError) : Event :=
  ⟨.warn, "attribute write-through failed, keeping values in memory",
    [("segment", .text name), ("unstored", .number count), ("error", .text e.message)]⟩

/-- Offers the unstored values to the store, which takes all of them or none. -/
def writeThrough (t : AttributeTiers) (store : AttributeStore) (segment : SegmentId)
    (name : String) : AttributeTiers × AttributeStore × List Event :=
  if t.unstored.isEmpty then (t, store, [])
  else
    match store.put segment t.unstored.entries with
    | (store', .ok ()) => ({ t with unstored := .empty }, store', [])
    | (store', .error e) => (t, store', [refusedEvent name t.unstored.size e])

/-- Drops the least recently used extended values beyond a bound; tells how many. -/
def trim (t : AttributeTiers) (maxCached : Nat) : AttributeTiers × Nat :=
  let (cache, count) := t.cache.trim maxCached
  ({ t with cache }, count)

/-- Puts a committed value into memory. -/
def record (t : AttributeTiers) (v : AttributeId × AttributeValue) : AttributeTiers :=
  { t with
    cache := t.cache.set v.1 v.2
    unstored := if v.1.isExtended then t.unstored.insert v.1 v.2 else t.unstored }

/-- Puts committed values into memory and counts a change of extended attributes. -/
def recordAll (t : AttributeTiers) (values : AttributeValues) : AttributeTiers :=
  let t' := values.foldl record t
  if values.any fun v => v.1.isExtended then { t' with epoch := t'.epoch + 1 } else t'

/-- Applies committed values: to memory, through to the store, and within the bound. -/
def apply (t : AttributeTiers) (store : AttributeStore) (segment : SegmentId) (name : String)
    (maxCached : Nat) (values : AttributeValues) : AttributeTiers × AttributeStore × List Event :=
  let (t', store', events) := (t.recordAll values).writeThrough store segment name
  ((t'.trim maxCached).1, store', events)

/-- Drops the extended values from the cache; tells how many there were. -/
def evict (t : AttributeTiers) : AttributeTiers × Nat :=
  ({ t with cache := t.cache.clearExtended, epoch := t.epoch + 1 }, t.cache.extendedSize)

/-- Drops every value. -/
def release (t : AttributeTiers) : AttributeTiers :=
  { cache := t.cache.clear, unstored := .empty, epoch := t.epoch + 1 }

end AttributeTiers

/-- A look-up after its first phase. -/
structure AttributeLookup where
  /-- The attributes asked for. -/
  ids : List AttributeId
  /-- What memory knew of them. -/
  found : AttributeValues
  /-- The extended ones that memory did not know. -/
  missing : List AttributeId
  /-- The epoch of the first phase. -/
  epoch : Nat
  deriving DecidableEq

namespace AttributeLookup

/-- The first phase: what memory knows. -/
def ofTiers (t : AttributeTiers) (ids : List AttributeId) : AttributeLookup where
  ids := ids
  found := ids.filterMap fun id => (t.resident? id).map (id, ·)
  missing := ids.filter fun id => (t.resident? id).isNone && id.isExtended
  epoch := t.epoch

/-- The answer, given the values of what was missing; each attribute is answered once. -/
def answer (l : AttributeLookup) (fetched : AttributeValues) : AttributeValues :=
  l.ids.eraseDups.map fun id =>
    (id, ((l.found.lookup id).or (fetched.lookup id)).getD nullValue)

/-- Makes one value resident where nothing is; tells what is to be answered. -/
def settle (fetched : AttributeValues) (state : AttributeTiers × AttributeValues)
    (id : AttributeId) : AttributeTiers × AttributeValues :=
  let (t, values) := state
  match t.resident? id with
  | some v => (t, values ++ [(id, v)])
  | none =>
    match fetched.lookup id with
    | some v => ({ t with cache := (t.cache.insertIfAbsent id v).1 }, values ++ [(id, v)])
    | none => (t, values)

/-- The last phase for a segment whose values may be made resident. -/
def cacheFetched (l : AttributeLookup) (t : AttributeTiers) (store : AttributeStore)
    (segment : SegmentId) (name : String) (maxCached : Nat) (fetched : AttributeValues) :
    AttributeTiers × AttributeValues × List Event :=
  let (current, events) :=
    if t.epoch = l.epoch then (fetched, [])
    else (store.lookup segment l.missing,
      [⟨.trace, "attributes changed during lookup, re-reading", [("segment", .text name)]⟩])
  let (t', values) := l.missing.foldl (settle current) (t, [])
  ((t'.trim maxCached).1, values, events)

end AttributeLookup

end Segments
