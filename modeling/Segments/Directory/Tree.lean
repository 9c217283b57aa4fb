import Segments.Bytes
import Segments.Directory.Path
import Segments.Table

/-!
# File trees

A file tree holds directories and files by their places, a place being the names on the way from
the root. Files can be locked; a lock has one holder at a time. A path leads to a place if there
is something at every name on it, and a directory before every further name.
-/

namespace Segments

/-- The names on the way from the root. -/
abbrev FilePlace := List String

/-- What is found at a place. -/
inductive FileNode where
  /-- A directory. -/
  | directory
  /-- A file with its bytes. -/
  | file (bytes : Bytes)
  deriving DecidableEq, Repr

/-- Directories and files, and the locks that are held. -/
structure FileTree where
  /-- Everything but the root, which is always a directory. -/
  nodes : Table FilePlace FileNode
  /-- The locked files. -/
  locks : List FilePlace
  deriving DecidableEq

namespace FileTree

/-- The tree of which there is only the root. -/
def empty : FileTree := ⟨.empty, []⟩

instance : Inhabited FileTree := ⟨empty⟩

/-- What is at a place. -/
def node? (t : FileTree) (place : FilePlace) : Option FileNode :=
  if place = [] then some .directory else t.nodes.get? place

/-- Whether there is anything at a place. -/
def exists? (t : FileTree) (place : FilePlace) : Bool := (t.node? place).isSome

/-- Whether there is a directory at a place. -/
def isDirectory (t : FileTree) (place : FilePlace) : Bool := t.node? place == some .directory

/-- The bytes of the file at a place; no bytes if there is no file. -/
def bytesAt (t : FileTree) (place : FilePlace) : Bytes :=
  match t.node? place with
  | some (.file bytes) => bytes
  | _ => []

/-- The tree with something put at a place. -/
def put (t : FileTree) (place : FilePlace) (node : FileNode) : FileTree :=
  { t with nodes := t.nodes.insert place node }

/-- The place, perhaps an empty one, of a name in a directory. -/
def enter (t : FileTree) (here : FilePlace) (name : String) : Except TreeError FilePlace :=
  if !t.isDirectory here then .error .notDirectory
  else if name = ".." then .ok here.dropLast
  else if TreePath.maxNameLength < name.utf8ByteSize then .error .nameTooLong
  else .ok (here ++ [name])

/-- The place that names lead to from a place. -/
def walk (t : FileTree) (here : FilePlace) : List String → Except TreeError FilePlace
  | [] => .ok here
  | name :: rest =>
    match t.enter here name with
    | .error e => .error e
    | .ok next => if t.exists? next then t.walk next rest else .error .notFound

/-- The place that a path leads to. -/
def follow (t : FileTree) (p : TreePath) : Except TreeError FilePlace :=
  match t.walk [] p.names with
  | .error e => .error e
  | .ok place =>
    if p.ending = .name ∨ t.isDirectory place then .ok place else .error .notDirectory

/-- The place of a path at which there is something. -/
def find? (t : FileTree) (path : String) : Option FilePlace :=
  ((TreePath.ofText? path).bind t.follow).toOption

/-- The place of a path at which there is a directory. -/
def findDirectory? (t : FileTree) (path : String) : Option FilePlace :=
  (t.find? path).filter t.isDirectory

/-- Makes a directory; the one around it must be there. -/
def makeDirectory (t : FileTree) (p : TreePath) : Except TreeError FileTree :=
  match p.names.getLast?, t.walk [] (if p.ending = .dot then p.names else p.names.dropLast) with
  | _, .error e => .error e
  | none, .ok _ => .error .exists
  | some name, .ok here =>
    if p.ending = .dot then .error (if t.isDirectory here then .exists else .notDirectory)
    else
      match t.enter here name with
      | .error e => .error e
      | .ok place =>
        if t.exists? place then .error .exists else .ok (t.put place .directory)

/-- Whether a directory was not made because it is there. -/
def isThere (t : FileTree) (p : TreePath) (e : TreeError) : Bool :=
  e == .exists &&
    match t.follow p with
    | .ok place => t.isDirectory place
    | .error _ => false

/-- Makes the first of some directories, the innermost first, that is there or can be made; gives
those before it, the outermost first. -/
def makeOutermost (t : FileTree) (missing : List TreePath) :
    List TreePath → FileTree × Except TreeError (List TreePath)
  | [] => (t, .ok missing)
  | p :: outer =>
    match t.makeDirectory p with
    | .ok t => (t, .ok missing)
    | .error e =>
      if e = .notFound then t.makeOutermost (p :: missing) outer
      else if t.isThere p e then (t, .ok missing)
      else (t, .error e)

/-- Makes directories one after another, unless they are there. -/
def makeEach (t : FileTree) : List TreePath → FileTree × Except TreeError Unit
  | [] => (t, .ok ())
  | p :: rest =>
    match t.makeDirectory p with
    | .ok t => t.makeEach rest
    | .error e => if t.isThere p e then t.makeEach rest else (t, .error e)

/-- Makes a directory and those around it that are missing. What was made stays when one cannot
be made. -/
def makeDirectories (t : FileTree) (p : TreePath) : FileTree × Except TreeError Unit :=
  match t.makeOutermost [] p.outwards with
  | (t, .error e) => (t, .error e)
  | (t, .ok missing) => t.makeEach missing

/-- Locks the file at a place unless it is locked. -/
def lock? (t : FileTree) (place : FilePlace) : Option FileTree :=
  if place ∈ t.locks then none else some { t with locks := place :: t.locks }

/-- Gives the lock of a file back. -/
def unlock (t : FileTree) (place : FilePlace) : FileTree :=
  { t with locks := t.locks.filter (· ≠ place) }

end FileTree

end Segments
