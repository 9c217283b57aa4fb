/-!
# Store configuration

Limits and habits of a store. A read chunk holds at least one byte.
-/

namespace Segments

/-- The configuration of a store. -/
structure Config where
  /-- The longest payload of one append. -/
  maxAppendLength : Nat
  /-- The longest segment name in bytes. -/
  maxNameLength : Nat
  /-- The most extended attributes that a segment keeps in memory. -/
  maxCachedAttributes : Nat
  /-- The longest chunk of a read. -/
  readChunkSize : Nat
  /-- Whether each commit is flushed. -/
  syncOnCommit : Bool
  /-- The timeout for callers without one of their own, in nanoseconds. -/
  defaultTimeout : Nat
  deriving DecidableEq, Repr

namespace Config

/-- The configuration of a store that asks for nothing special. -/
def standard : Config where
  maxAppendLength := 8 * 1024 * 1024
  maxNameLength := 512
  maxCachedAttributes := 1024
  readChunkSize := 64 * 1024
  syncOnCommit := true
  defaultTimeout := 30 * 1000000000

instance : Inhabited Config := ⟨standard⟩

/-- Sets the chunk size of reads; zero counts as one. -/
def withReadChunkSize (c : Config) (size : Nat) : Config :=
  { c with readChunkSize := if size = 0 then 1 else size }

end Config

end Segments
