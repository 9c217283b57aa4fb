/-!
# Paths

A path names the way to a place in a file tree. Empty names and single dots between slashes say
nothing, but how a path ends matters: behind a slash or a dot there must be a directory. A text
is no path when it is empty, too long, or holds a zero character.
-/

namespace Segments

/-- Why a step in a file tree fails. -/
inductive TreeError where
  /-- There is nothing at a place. -/
  | notFound
  /-- There is something at a place already. -/
  | exists
  /-- The way leads through something that is not a directory. -/
  | notDirectory
  /-- There is a directory where a file is wanted. -/
  | isDirectory
  /-- A name, or the whole path, is too long. -/
  | nameTooLong
  /-- A path holds a zero character. -/
  | zeroCharacter
  deriving DecidableEq, Repr

namespace TreeError

/-- The message of the system. -/
def message : TreeError → String
  | notFound => "No such file or directory (os error 2)"
  | «exists» => "File exists (os error 17)"
  | notDirectory => "Not a directory (os error 20)"
  | isDirectory => "Is a directory (os error 21)"
  | nameTooLong => "File name too long (os error 36)"
  | zeroCharacter => "file name contained an unexpected NUL byte"

end TreeError

/-- How a path ends. -/
inductive PathEnd where
  /-- With a name. -/
  | name
  /-- With a slash behind a name. -/
  | slash
  /-- With a single dot. -/
  | dot
  deriving DecidableEq, Repr

/-- The way to a place in a file tree. -/
structure TreePath where
  /-- The names on the way; two dots lead back. -/
  names : List String
  /-- How the path ends. -/
  ending : PathEnd
  deriving DecidableEq, Repr

namespace TreePath

/-- The longest name in bytes. -/
def maxNameLength : Nat := 255

/-- A path is shorter than this many bytes. -/
def maxLength : Nat := 4096

/-- How a path made of some parts between slashes ends. -/
def endOf (parts : List String) : PathEnd :=
  match parts.reverse.dropWhile (· = "") with
  | "." :: _ => .dot
  | _ => if parts.getLast? = some "" then .slash else .name

/-- The path that a text stands for. -/
def ofText? (text : String) : Except TreeError TreePath :=
  if text.contains (Char.ofNat 0) then .error .zeroCharacter
  else if maxLength ≤ text.utf8ByteSize then .error .nameTooLong
  else if text.isEmpty then .error .notFound
  else
    let parts := text.splitOn "/"
    .ok ⟨parts.filter fun part => part ≠ "" ∧ part ≠ ".", endOf parts⟩

/-- The path and the paths of the directories around its last name, the innermost first. -/
def outwards (p : TreePath) : List TreePath :=
  p :: ((List.range' 1 (p.names.length - 1)).reverse.map fun n => ⟨p.names.take n, .name⟩)

end TreePath

end Segments
