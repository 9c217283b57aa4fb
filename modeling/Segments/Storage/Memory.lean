import Segments.Storage.Basic

/-!
# Bytes in memory

The plainest byte store: it is what it holds.
-/

namespace Segments

/-- A byte store that keeps every byte in memory. -/
structure Memory where
  /-- Everything held. -/
  data : Bytes
  deriving DecidableEq, Repr, Inhabited

namespace Memory

/-- The bytes of a range, which must be held in full. -/
def readAt (m : Memory) (offset len : Nat) : Except StorageError Bytes :=
  let size := m.data.length
  if size < offset + len then .error (.readPastEnd offset len size)
  else .ok ((m.data.drop offset).take len)

/-- Adds bytes at the end. -/
def append (m : Memory) (data : Bytes) : Memory := ⟨m.data ++ data⟩

/-- Cuts the store; it cannot grow this way. -/
def truncate (m : Memory) (newSize : Nat) : Memory × Except StorageError Unit :=
  let size := m.data.length
  if size < newSize then (m, .error (.truncatePastEnd newSize size))
  else (⟨m.data.take newSize⟩, .ok ())

instance : ByteStore Memory where
  readAt := readAt
  append m data := (m.append data, .ok m.data.length)
  flush m := (m, .ok ())
  sync m := (m, .ok ())
  size m := m.data.length
  truncate := truncate

end Memory

end Segments
