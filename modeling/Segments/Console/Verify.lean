import Segments.Console.Snapshot

/-!
# Verification

A verification reads every record of the journal and replays it, and reads every record of the
index of stored attributes. Problems are what would keep the store from being opened; warnings
are what opening would repair.
-/

namespace Segments

/-- What was found in one file. -/
structure Findings where
  /-- The number of records that were read. -/
  checked : Nat
  /-- What keeps the store from being opened. -/
  problems : List String
  /-- What opening repairs. -/
  warnings : List String
  deriving DecidableEq, Repr, Inhabited

/-- The files that a verification looks at. -/
structure VerifyScope where
  /-- Whether the journal is checked. -/
  journal : Bool
  /-- Whether the index of stored attributes is checked. -/
  attributes : Bool
  deriving DecidableEq, Repr, Inhabited

/-- What a verification writes and how many problems it found. -/
structure Verification where
  /-- The lines. -/
  lines : List String
  /-- The number of problems. -/
  problems : Nat
  deriving DecidableEq, Repr

namespace Findings

/-- Whether there is no problem. -/
def isOk (f : Findings) : Bool := f.problems.isEmpty

/-- What is wrong when the journal is replayed. -/
def replayProblems (s : Snapshot) : List String :=
  match s.openStore with
  | .error e => ["replay failed: " ++ e.message]
  | .ok r =>
    match r.shutdown.2 with
    | .error e => ["replay failed: " ++ e.message]
    | .ok () => []

/-- The findings in the journal. -/
def ofJournal (s : Snapshot) : Findings :=
  let scan := s.scan
  match scan.stop with
  | some e => ⟨scan.records.length, [e.message], []⟩
  | none =>
    let torn := s.journal.length - scan.position
    let warnings := if 0 < torn then
        [s!"{torn} trailing byte(s) at offset {scan.position} belong to an incomplete record"]
      else []
    ⟨scan.records.length, replayProblems s, warnings⟩

/-- The findings in the index of stored attributes. -/
def ofIndex (s : Snapshot) : Findings :=
  match s.openIndex with
  | .error e => ⟨0, [e.message], []⟩
  | .ok log =>
    let torn := s.attributes.length - log.log.length
    let warnings := if 0 < torn then
        [s!"{torn} trailing byte(s) belong to an incomplete record"]
      else []
    ⟨log.index.size, [], warnings⟩

/-- The mark of a check that passed or failed. -/
def mark (passed : Bool) : String := if passed then "✓" else "✗"

/-- The lines about one file. -/
def lines (f : Findings) (file : String) : List String :=
  ("  " ++ mark f.isOk ++ " " ++ file ++ s!": {f.checked} record(s) checked")
    :: f.warnings.map ("    warning: " ++ ·) ++ f.problems.map ("    error: " ++ ·)

end Findings

namespace VerifyScope

/-- Both files. -/
def all : VerifyScope := ⟨true, true⟩

end VerifyScope

namespace Verification

/-- Verifies the files of a snapshot. -/
def ofSnapshot (s : Snapshot) (scope : VerifyScope) : Verification :=
  let journal := if scope.journal then some (Findings.ofJournal s) else none
  let index := if scope.attributes then some (Findings.ofIndex s) else none
  let about (start file : String) : Option Findings → List String
    | some f => start :: f.lines file
    | none => []
  let problems := (journal.toList ++ index.toList).flatMap Findings.problems
  let verdict := if problems.isEmpty then "passed" else "failed"
  ⟨["Verifying segment store at " ++ s.path, ""]
      ++ about "Checking journal..." "Journal" journal
      ++ about "Checking attribute index..." "Attribute index" index
      ++ ["", Findings.mark problems.isEmpty ++ " Store verification " ++ verdict],
    problems.length⟩

end Verification

end Segments
