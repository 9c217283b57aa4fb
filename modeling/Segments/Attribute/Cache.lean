import Segments.Attribute.Id
import Segments.Table

/-!
# The resident attributes of a segment

Core values stay until they are removed. Extended values carry the time of their last use, so
that `trim` can drop the least recently used ones. The clock ticks with each look-up and each
store of an extended attribute, hence no two stamps agree.
-/

namespace Segments

/-- An extended value with the time of its last use. -/
structure CachedValue where
  /-- The value. -/
  value : AttributeValue
  /-- The clock reading of the last use. -/
  lastUsed : Nat
  deriving DecidableEq, Repr

/-- The attributes of a segment that are in memory. -/
structure AttributeCache where
  /-- Core values. -/
  core : Table AttributeId AttributeValue
  /-- Extended values. -/
  extended : Table AttributeId CachedValue
  /-- The last stamp given out. -/
  clock : Nat
  deriving DecidableEq

namespace AttributeCache

/-- The cache without values. -/
def empty : AttributeCache := ⟨.empty, .empty, 0⟩

instance : Inhabited AttributeCache := ⟨empty⟩

/-- The resident value of an attribute. -/
def peek (c : AttributeCache) (id : AttributeId) : Option AttributeValue :=
  if id.isCore then c.core.get? id else (c.extended.get? id).map CachedValue.value

/-- Whether an attribute is resident. -/
def contains (c : AttributeCache) (id : AttributeId) : Bool := (c.peek id).isSome

/-- Marks an extended attribute as just used; the clock ticks in any case. -/
def touch (c : AttributeCache) (id : AttributeId) : AttributeCache :=
  if id.isCore then c
  else
    { c with
      extended := c.extended.modify id fun v => { v with lastUsed := c.clock + 1 }
      clock := c.clock + 1 }

/-- Looks a resident value up and marks the attribute as just used. -/
def get (c : AttributeCache) (id : AttributeId) : AttributeCache × Option AttributeValue :=
  (c.touch id, c.peek id)

/-- Removes an attribute. -/
def remove (c : AttributeCache) (id : AttributeId) : AttributeCache :=
  if id.isCore then { c with core := c.core.erase id }
  else { c with extended := c.extended.erase id }

/-- Stores a value; the value that stands for none removes the attribute. -/
def set (c : AttributeCache) (id : AttributeId) (value : AttributeValue) : AttributeCache :=
  if value = nullValue then c.remove id
  else if id.isCore then { c with core := c.core.insert id value }
  else
    { c with
      extended := c.extended.insert id ⟨value, c.clock + 1⟩
      clock := c.clock + 1 }

/-- Stores a value unless the attribute is resident; tells whether it did. -/
def insertIfAbsent (c : AttributeCache) (id : AttributeId) (value : AttributeValue) :
    AttributeCache × Bool :=
  if value = nullValue ∨ c.contains id then (c, false) else (c.set id value, true)

/-- The extended entries, the least recently used first. -/
def byAge (c : AttributeCache) : List (AttributeId × CachedValue) :=
  c.extended.entries.mergeSort fun a b => decide (a.2.lastUsed ≤ b.2.lastUsed)

/-- Drops the least recently used extended entries beyond `max`; tells how many. -/
def trim (c : AttributeCache) (max : Nat) : AttributeCache × Nat :=
  let excess := c.extended.size - max
  let oldest := (c.byAge.take excess).map Prod.fst
  ({ c with extended := c.extended.filter fun id _ => !oldest.contains id }, excess)

/-- The number of resident extended entries. -/
def extendedSize (c : AttributeCache) : Nat := c.extended.size

/-- Drops every extended entry. -/
def clearExtended (c : AttributeCache) : AttributeCache := { c with extended := .empty }

/-- Drops every entry. -/
def clear (c : AttributeCache) : AttributeCache := { c with core := .empty, extended := .empty }

/-- Every resident value, core ones first. -/
def snapshot (c : AttributeCache) : AttributeValues :=
  c.core.entries ++ c.extended.entries.map fun e => (e.1, e.2.value)

end AttributeCache

/-- Attribute values in the order of their identifiers. -/
def sortedById (values : AttributeValues) : AttributeValues :=
  values.mergeSort fun a b => a.1.le b.1

end Segments
