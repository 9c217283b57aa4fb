import Segments.Journal.Scan
import Segments.Storage.Crash
import Segments.Storage.Memory

/-!
# The operation log

The log is the journal as the engine writes it. A record is committed once `append` succeeds,
which with syncing includes the flush; when the flush fails the bytes have been written but
the record is not counted.
-/

namespace Segments

/-- The journal of a store. -/
structure OperationLog where
  /-- Where the bytes go. -/
  device : Crashable Memory
  /-- Whether every record is flushed. -/
  syncOnCommit : Bool
  /-- Records committed since the log was opened. -/
  appended : Nat
  deriving DecidableEq, Repr, Inhabited

namespace OperationLog

/-- A log over bytes, with nothing appended yet. -/
def ofBytes (bytes : Bytes) (syncOnCommit : Bool) : OperationLog :=
  ⟨⟨⟨bytes⟩, .disarmed⟩, syncOnCommit, 0⟩

/-- Everything that is in the journal. -/
def bytes (log : OperationLog) : Bytes := log.device.inner.data

/-- The size of the journal. -/
def size (log : OperationLog) : Nat := log.bytes.length

/-- Writes bytes, and flushes them when every record is flushed. -/
def write (log : OperationLog) (frame : Bytes) : OperationLog × Except SegmentError Nat :=
  match ByteStore.append log.device frame with
  | (device, .error e) => ({ log with device }, .error (.storage e))
  | (device, .ok offset) =>
    if log.syncOnCommit then
      match ByteStore.flush device with
      | (device, .error e) => ({ log with device }, .error (.storage e))
      | (device, .ok ()) => ({ log with device, appended := log.appended + 1 }, .ok offset)
    else ({ log with device, appended := log.appended + 1 }, .ok offset)

/-- Appends a record and tells the offset of its frame. -/
def append (log : OperationLog) (r : Record) : OperationLog × Except SegmentError Nat :=
  match Frame.encode r with
  | .error e => (log, .error e)
  | .ok frame => log.write frame

/-- Flushes the journal. -/
def flush (log : OperationLog) : OperationLog × Except SegmentError Unit :=
  match ByteStore.flush log.device with
  | (device, .error e) => ({ log with device }, .error (.storage e))
  | (device, .ok ()) => ({ log with device }, .ok ())

/-- Cuts the journal at an offset. -/
def truncate (log : OperationLog) (offset : Nat) : OperationLog × Except SegmentError Unit :=
  match ByteStore.truncate log.device offset with
  | (device, .error e) => ({ log with device }, .error (.storage e))
  | (device, .ok ()) => ({ log with device }, .ok ())

/-- The structural form of a log. -/
def form (log : OperationLog) : String :=
  s!"OperationLog \x7b sync_on_commit: {log.syncOnCommit}, appended: {log.appended}, .. \x7d"

/-- Scans the journal. -/
def scan (log : OperationLog) : Scan := .ofJournal log.bytes

end OperationLog

end Segments
