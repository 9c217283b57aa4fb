import Segments.Engine.Replay

/-!
# What a store leaves behind

A store is opened over contents that outlive it: a journal, and what the attribute store is kept
in. While a store is open its contents are those of the engine.
-/

namespace Segments

/-- What an attribute store leaves behind. -/
inductive AttributeContents where
  /-- An index that needs no opening. -/
  | index (index : AttributeIndex)
  /-- The log of an index. -/
  | log (bytes : Bytes)
  deriving DecidableEq

/-- What a store leaves behind. -/
structure Contents where
  /-- The journal. -/
  journal : Bytes
  /-- What the attribute store left. -/
  attributes : AttributeContents
  deriving DecidableEq

namespace AttributeStore

/-- What is left of an attribute store. -/
def contents (s : AttributeStore) : AttributeContents :=
  match s.keeper with
  | .volatile index => .index index
  | .logged log => .log log.log

/-- The store with other bytes in the place of its log, if it has one. -/
def withLog (s : AttributeStore) (bytes : Bytes) : AttributeStore :=
  match s.keeper with
  | .volatile _ => s
  | .logged log => { s with keeper := .logged { log with log := bytes } }

/-- The store over contents that others have changed; what it knows of a log is its own. -/
def withContents (s : AttributeStore) : AttributeContents → AttributeStore
  | .index index =>
    match s.keeper with
    | .volatile _ => { s with keeper := .volatile index }
    | .logged _ => s
  | .log bytes => s.withLog bytes

end AttributeStore

namespace AttributeContents

/-- Opens the attribute store. -/
def openStore : AttributeContents → Except SegmentError (AttributeStore × List Event)
  | index i => .ok (.ofIndex i, [])
  | log bytes =>
    match IndexLog.openLog bytes with
    | .error e => .error e
    | .ok (l, events) => .ok (.ofLog l, events)

/-- The bytes of the log, if there is one. -/
def bytes : AttributeContents → Bytes
  | index _ => []
  | log b => b

end AttributeContents

namespace Engine

/-- What is left of a store. -/
def contents (s : Engine) : Contents := ⟨s.log.bytes, s.store.contents⟩

/-- The store with other bytes in the place of its journal. -/
def withJournal (s : Engine) (bytes : Bytes) : Engine :=
  { s with log := { s.log with device := { s.log.device with inner := ⟨bytes⟩ } } }

/-- The store over contents that others have changed. -/
def withContents (s : Engine) (c : Contents) : Engine :=
  { s.withJournal c.journal with store := s.store.withContents c.attributes }

end Engine

namespace Contents

/-- No journal and no attribute values. -/
def empty : Contents := ⟨[], .index .empty⟩

instance : Inhabited Contents := ⟨empty⟩

/-- The contents of a new store whose attribute store has a log. -/
def emptyLog : Contents := ⟨[], .log []⟩

/-- Opens a store over contents; tells what is left of them in any case. -/
def openStore (c : Contents) (config : Config) (clock : AttributeValue) :
    Contents × List Event × Except SegmentError Engine :=
  match c.attributes.openStore with
  | .error e => (c, [], .error e)
  | .ok (store, events) =>
    let o := Engine.openStore config c.journal store clock
    (⟨o.journal, o.store.contents⟩, events ++ o.events, o.result)

end Contents

end Segments
