import Segments.Console.Error
import Segments.Directory.Store
import Segments.Engine.Calls
import Segments.Engine.Contents

/-!
# Snapshots

The commands never work on the files of a store. They hold the lock of its directory while the
files are copied, and do everything else on the copies.
-/

namespace Segments

/-- Copies of the files of a store. -/
structure Snapshot where
  /-- The path of the directory. -/
  path : String
  /-- The journal. -/
  journal : Bytes
  /-- The index of stored attributes. -/
  attributes : Bytes
  deriving DecidableEq, Repr

namespace Snapshot

/-- Copies the files of a store directory. -/
def copy (t : FileTree) (d : StoreDirectory) : Except ConsoleError Snapshot :=
  if t.isNew d then .error (.storeNotFound d.path)
  else
    match t.readFile d.journalPlace, t.readFile d.attributesPlace with
    | .error e, _ => .error (.storage e)
    | .ok _, .error e => .error (.storage e)
    | .ok journal, .ok attributes => .ok ⟨d.path, journal, attributes⟩

/-- Copies the files of a store under the lock of its directory. -/
def load (t : FileTree) (path : String) : FileTree × Except ConsoleError Snapshot :=
  if (t.findDirectory? path).isNone then (t, .error (.storeNotFound path))
  else
    match t.acquire path false with
    | (t, .error e) => (t, .error (.segment e))
    | (t, .ok d) => (t.release d, copy t d)

/-- What the copies hold. -/
def contents (s : Snapshot) : Contents := ⟨s.journal, .log s.attributes⟩

/-- The configuration with which copies are opened. -/
def config : Config := { Config.standard with syncOnCommit := false }

/-- Opens a store over the copies. -/
def openStore (s : Snapshot) : Except SegmentError Scheduler :=
  (s.contents.openStore config 0).2.2.map Scheduler.ofEngine

/-- The scan of the journal. -/
def scan (s : Snapshot) : Scan := .ofJournal s.journal

/-- Opens the index of stored attributes. -/
def openIndex (s : Snapshot) : Except SegmentError IndexLog :=
  (IndexLog.openLog s.attributes).map Prod.fst

end Snapshot

end Segments
