import Segments.Console.Program

/-!
# The command line program

The outer layer: it looks at the directory that the command line names, runs the program on what
it found there, and writes what comes out.
-/

namespace Segments

/-- The bytes of a file, if it can be read. -/
def readFile? (path : String) : IO (Option Bytes) := do
  try
    let bytes ← IO.FS.readBinFile path
    pure (some bytes.toList)
  catch _ => pure none

/-- Whether there is a directory at a path. -/
def isDirectory (path : String) : IO Bool := do
  try
    let real ← IO.FS.realPath path
    real.isDir
  catch _ => pure false

/-- The store directory at a path with its files. -/
def readDirectory (path : String) : IO FileTree := do
  let .ok p := TreePath.ofText? path | return .empty
  let bare := (FileTree.empty.makeDirectories { p with ending := .name }).1
  let some place := bare.find? path | return .empty
  let mut tree := bare
  for name in [StoreDirectory.journalName, StoreDirectory.attributesName] do
    if let some bytes ← readFile? (StoreDirectory.join path name) then
      tree := tree.put (place ++ [name]) (.file bytes)
  pure tree

/-- Takes the lock of the directory at a path while an action runs on what is there. -/
def withDirectory (path : String) (act : FileTree → IO UInt32) : IO UInt32 := do
  if !(← isDirectory path) then act .empty
  else
    let lockPath := StoreDirectory.join path StoreDirectory.lockName
    let handle ← IO.FS.Handle.mk lockPath .append
    let locked ← handle.tryLock
    let tree ← readDirectory path
    if locked then act tree
    else
      let place := (tree.find? path).getD []
      act { tree with locks := [place ++ [StoreDirectory.lockName]] }

/-- Runs the program on a file tree and writes what comes out. -/
def runOn (words : List String) (tree : FileTree) : IO UInt32 := do
  let (_, result) := runProgram tree words
  match result with
  | .refused => IO.eprintln "error: the command line was refused"
  | .ran r =>
    IO.print r.output
    if let some text := r.errorOutput then IO.eprintln text
  pure (UInt32.ofNat result.code)

end Segments

/-- Runs the program with the arguments of the process. -/
def main (words : List String) : IO UInt32 := do
  match (Segments.CommandLine.parse? words).bind Segments.Invocation.path with
  | some path => Segments.withDirectory path (Segments.runOn words)
  | none => Segments.runOn words .empty
