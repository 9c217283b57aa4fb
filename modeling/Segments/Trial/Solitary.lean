import Segments.Engine.Calls

/-!
# A store with one segment

A store that was not opened over a journal but made with one active segment, for trials of what
happens to the attributes of a segment.
-/

namespace Segments.Engine

/-- A store with one active segment. -/
def solitary (config : Config) (id : SegmentId) (name : String) : Engine :=
  { Engine.new config [] .empty 0 with
    entries := Table.empty.insert id
      (.ofMetadata { Metadata.new id name with state := .active })
    names := Table.empty.insert name id
    nextId := id + 1 }

/-- The store with other attribute values of a segment in memory. -/
def withTiers (s : Engine) (id : SegmentId) (attributes : AttributeTiers) : Engine :=
  s.modifyEntry id fun e => { e with metadata := { e.metadata with attributes } }

end Segments.Engine
