import Segments.Storage.Basic

/-!
# Bytes in a file

A file store keeps count of the size apart from the file: the file decides where an append
lands, the count decides what may be read. Empty reads and appends do not reach the file.
-/

namespace Segments

/-- A byte store over one file. -/
structure FileStore where
  /-- What the file system holds. -/
  content : Bytes
  /-- The size the store keeps count of. -/
  counted : Nat
  deriving DecidableEq, Repr, Inhabited

namespace FileStore

/-- The store over a file with the given content. -/
def ofContent (content : Bytes) : FileStore := ⟨content, content.length⟩

/-- The store after the file is closed and opened again. -/
def reopen (f : FileStore) : FileStore := ofContent f.content

/-- The bytes of a range within the counted size; the file must hold them. -/
def readAt (f : FileStore) (offset len : Nat) : Except StorageError Bytes :=
  if f.counted < offset + len then .error (.readPastEnd offset len f.counted)
  else if len = 0 then .ok []
  else match Bytes.takeExactly len (f.content.drop offset) with
    | some (bytes, _) => .ok bytes
    | none => .error (.io "failed to fill whole buffer")

/-- Writes at the end of the file and counts what was written. -/
def append (f : FileStore) (data : Bytes) : FileStore :=
  if data.isEmpty then f else ⟨f.content ++ data, f.counted + data.length⟩

/-- Sets the length of the file; it cannot grow this way. -/
def truncate (f : FileStore) (newSize : Nat) : FileStore × Except StorageError Unit :=
  if f.counted < newSize then (f, .error (.truncatePastEnd newSize f.counted))
  else (⟨f.content.take newSize, newSize⟩, .ok ())

instance : ByteStore FileStore where
  readAt := readAt
  append f data := (f.append data, .ok f.counted)
  flush f := (f, .ok ())
  sync f := (f, .ok ())
  size f := f.counted
  truncate := truncate

end FileStore

end Segments
