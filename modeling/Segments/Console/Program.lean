import Segments.Console.Arguments
import Segments.Console.Dump
import Segments.Text.Lines

/-!
# The program

Commands on a store directory write text and may fail. The program reads its command line, runs
the command, and ends with a code: 0 when all went well, 1 when the command failed, 2 when the
command line was refused.
-/

namespace Segments

/-- What a command writes, and how it ends. -/
structure CommandResult where
  /-- What is written. -/
  output : String
  /-- Why it fails, if it does. -/
  failure : Option ConsoleError
  deriving DecidableEq, Repr

/-- How the program ends. -/
inductive ProgramResult where
  /-- The command line is refused. -/
  | refused
  /-- A command was run. -/
  | ran (result : CommandResult)
  deriving DecidableEq, Repr

namespace CommandResult

/-- A command that succeeds after writing lines. -/
def success (lines : List String) : CommandResult := ⟨Text.unlines lines, none⟩

/-- A command that fails before it writes anything. -/
def failed (e : ConsoleError) : CommandResult := ⟨"", some e⟩

/-- The lines of a result, or its failure. -/
def ofLines : Except ConsoleError (List String) → CommandResult
  | .ok lines => success lines
  | .error e => failed e

/-- What is written to the error output at the end. -/
def errorOutput (r : CommandResult) : Option String :=
  r.failure.map fun e => "Error: " ++ e.form

end CommandResult

namespace Snapshot

/-- Runs a command on the snapshot of a store directory. -/
def withSnapshot (t : FileTree) (path : String) (command : Snapshot → CommandResult) :
    FileTree × CommandResult :=
  match load t path with
  | (t, .error e) => (t, .failed e)
  | (t, .ok s) => (t, command s)

/-- Summarizes the store. -/
def inspect (shown : Bool) (format : OutputFormat) (s : Snapshot) : CommandResult :=
  .ofLines ((Inspection.ofSnapshot s shown).map fun i => i.render format)

/-- Verifies the files; fails if there is a problem. -/
def verify (scope : VerifyScope) (s : Snapshot) : CommandResult :=
  let v := Verification.ofSnapshot s scope
  ⟨Text.unlines v.lines,
    if v.problems = 0 then none else some (.verificationFailed v.problems)⟩

/-- The records of the journal from an offset on, at most `limit` of them. -/
def dumped (s : Snapshot) (limit : Option Nat) (offset : Nat) : JournalDump :=
  .ofSource (Memory.mk s.journal) limit offset

/-- Dumps the journal. -/
def dump (limit : Option Nat) (offset : Nat) (format : OutputFormat) (s : Snapshot) :
    CommandResult :=
  .success ((s.dumped limit offset).render format)

end Snapshot

namespace Command

/-- The name of a command. -/
def name : Command → String
  | inspect .. => "inspect"
  | verify _ => "verify"
  | dump .. => "dump-log"
  | version => "version"

/-- The line that tells the version. -/
def versionLine : String := "segstore CLI v0.1.0"

/-- Runs what needs a store on the directory at the path, if one was given. -/
def onStore (c : Command) (t : FileTree) (path : Option String)
    (act : Snapshot → CommandResult) : FileTree × CommandResult :=
  match path with
  | none => (t, .failed (.pathRequired c.name))
  | some path => Snapshot.withSnapshot t path act

/-- Runs a command. -/
def run (t : FileTree) (path : Option String) (c : Command) : FileTree × CommandResult :=
  match c with
  | inspect shown format => c.onStore t path (Snapshot.inspect shown format)
  | verify scope => c.onStore t path (Snapshot.verify scope)
  | dump limit offset format => c.onStore t path (Snapshot.dump limit offset format)
  | version => (t, .success [versionLine])

end Command

namespace ProgramResult

/-- The code with which the program ends. -/
def code : ProgramResult → Nat
  | refused => 2
  | ran r => if r.failure.isSome then 1 else 0

end ProgramResult

/-- Runs the program with its arguments. -/
def runProgram (t : FileTree) (words : List String) : FileTree × ProgramResult :=
  match CommandLine.parse? words with
  | none => (t, .refused)
  | some i =>
    let (t, result) := i.command.run t i.path
    (t, .ran result)

end Segments
