import Segments.Directory.Tree
import Segments.Error

/-!
# Store directories

A store lives in a directory of its own: a lock file, the journal, and the index of stored
attributes. Who works with the directory holds its lock. A directory without a journal is new.
-/

namespace Segments

/-- A locked store directory. -/
structure StoreDirectory where
  /-- The path as it was given. -/
  path : String
  /-- The place of the directory. -/
  place : FilePlace
  deriving DecidableEq, Repr

namespace StoreDirectory

/-- The name of the lock file. -/
def lockName : String := "LOCK"

/-- The name of the journal. -/
def journalName : String := "journal.log"

/-- The name of the index of stored attributes. -/
def attributesName : String := "attributes.idx"

/-- The path of something in a directory. -/
def join (path name : String) : String :=
  if path.isEmpty ∨ path.endsWith "/" then path ++ name else path ++ "/" ++ name

/-- The path of the journal. -/
def journalPath (d : StoreDirectory) : String := join d.path journalName

/-- The path of the index of stored attributes. -/
def attributesPath (d : StoreDirectory) : String := join d.path attributesName

/-- The place of the lock file. -/
def lockPlace (d : StoreDirectory) : FilePlace := d.place ++ [lockName]

/-- The place of the journal. -/
def journalPlace (d : StoreDirectory) : FilePlace := d.place ++ [journalName]

/-- The place of the index of stored attributes. -/
def attributesPlace (d : StoreDirectory) : FilePlace := d.place ++ [attributesName]

end StoreDirectory

namespace FileTree

/-- The error of a step in the tree. -/
def failure (e : TreeError) : SegmentError := .storage (.io e.message)

/-- Makes the directories of a path when they may be made. -/
def prepare (t : FileTree) (path : String) (create : Bool) :
    FileTree × Except SegmentError Unit :=
  if (t.find? path).isSome then (t, .ok ())
  else if !create then (t, .error (.internal ("store directory does not exist: " ++ path)))
  else
    match TreePath.ofText? path with
    | .error e => (t, .error (failure e))
    | .ok p =>
      let (t, result) := t.makeDirectories p
      (t, result.mapError failure)

/-- Takes the lock of a directory; the lock file is made if it is missing. -/
def lockDirectory (t : FileTree) (d : StoreDirectory) :
    FileTree × Except SegmentError StoreDirectory :=
  if t.isDirectory d.lockPlace then (t, .error (failure .isDirectory))
  else
    let t := if t.exists? d.lockPlace then t else t.put d.lockPlace (.file [])
    match t.lock? d.lockPlace with
    | none => (t, .error (.storeLocked d.path))
    | some t => (t, .ok d)

/-- Opens a store directory and takes its lock; missing directories are made if asked for. -/
def acquire (t : FileTree) (path : String) (create : Bool) :
    FileTree × Except SegmentError StoreDirectory :=
  match t.prepare path create with
  | (t, .error e) => (t, .error e)
  | (t, .ok ()) =>
    match t.findDirectory? path with
    | none => (t, .error (.internal ("path is not a directory: " ++ path)))
    | some place => t.lockDirectory ⟨path, place⟩

/-- Gives the lock of a store directory back. -/
def release (t : FileTree) (d : StoreDirectory) : FileTree := t.unlock d.lockPlace

/-- Whether a store directory has no journal yet. -/
def isNew (t : FileTree) (d : StoreDirectory) : Bool := !t.exists? d.journalPlace

/-- The bytes of a file, which may be missing. -/
def readFile (t : FileTree) (place : FilePlace) : Except StorageError Bytes :=
  match t.node? place with
  | none => .ok []
  | some .directory => .error (.io TreeError.isDirectory.message)
  | some (.file bytes) => .ok bytes

end FileTree

end Segments
