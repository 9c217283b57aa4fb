import Segments.Bytes
import Segments.Error

/-!
# Byte stores

A byte store only grows at its end and is cut only at its end. `ByteStore` states what every
store offers; `Call` gives the same operations as data, so that a run against a store is a
list of calls.
-/

namespace Segments

/-- An append-only store of bytes. -/
class ByteStore (σ : Type) where
  /-- The bytes of a range that was fully appended. -/
  readAt : σ → Nat → Nat → Except StorageError Bytes
  /-- Appends bytes and tells the offset of the first one. -/
  append : σ → Bytes → σ × Except StorageError Nat
  /-- Pushes appended bytes to the device. -/
  flush : σ → σ × Except StorageError Unit
  /-- Like `flush`, for the description of the file too. -/
  sync : σ → σ × Except StorageError Unit
  /-- The number of bytes held, which is the offset of the next append. -/
  size : σ → Nat
  /-- Cuts the store down to a size. -/
  truncate : σ → Nat → σ × Except StorageError Unit

namespace ByteStore

variable {σ : Type} [ByteStore σ]

/-- At most `max` bytes from an offset on, as far as the store goes. -/
def readAvailable (s : σ) (offset max : Nat) : Except StorageError Bytes :=
  readAt s offset (min (size s - offset) max)

/-- A call on a byte store. -/
inductive Call where
  /-- Append bytes. -/
  | append (data : Bytes)
  /-- Read a range. -/
  | readAt (offset len : Nat)
  /-- Read at most so many bytes. -/
  | readAvailable (offset max : Nat)
  /-- Ask for the size. -/
  | size
  /-- Flush. -/
  | flush
  /-- Sync. -/
  | sync
  /-- Cut down to a size. -/
  | truncate (newSize : Nat)
  deriving DecidableEq, Repr

/-- What a call answers when it does not fail. -/
inductive Reply where
  /-- Nothing to say. -/
  | done
  /-- An offset or a size. -/
  | number (n : Nat)
  /-- The bytes read. -/
  | bytes (b : Bytes)
  deriving DecidableEq, Repr

/-- Runs one call. -/
def run (s : σ) : Call → σ × Except StorageError Reply
  | .append data => let (s', r) := append s data; (s', r.map .number)
  | .readAt offset len => (s, (readAt s offset len).map .bytes)
  | .readAvailable offset max => (s, (readAvailable s offset max).map .bytes)
  | .size => (s, .ok (.number (size s)))
  | .flush => let (s', r) := flush s; (s', r.map fun _ => .done)
  | .sync => let (s', r) := sync s; (s', r.map fun _ => .done)
  | .truncate n => let (s', r) := truncate s n; (s', r.map fun _ => .done)

/-- The answers of a list of calls, and the store after them. -/
def runAll (s : σ) : List Call → σ × List (Except StorageError Reply)
  | [] => (s, [])
  | call :: calls =>
    let (s', reply) := run s call
    let (s'', replies) := runAll s' calls
    (s'', reply :: replies)

end ByteStore

end Segments
