import Segments.Error

/-!
# Errors of the console

What the commands on a store directory fail with: no store there, no path given, problems found
by a verification, an error of the engine, or a file that cannot be read.
-/

namespace Segments

/-- Why a command fails. -/
inductive ConsoleError where
  /-- There is no store at the path. -/
  | storeNotFound (path : String)
  /-- The command needs a path. -/
  | pathRequired (command : String)
  /-- A verification found problems. -/
  | verificationFailed (problems : Nat)
  /-- A request was rejected. -/
  | argument (error : ArgumentError)
  /-- The engine failed. -/
  | segment (error : SegmentError)
  /-- A file could not be read. -/
  | storage (error : StorageError)
  deriving DecidableEq, Repr

namespace ConsoleError

/-- The wording of a console error. -/
def message : ConsoleError → String
  | storeNotFound path => "no segment store found at " ++ path
  | pathRequired command => "store path required for " ++ command
  | verificationFailed problems => s!"verification failed with {problems} problem(s)"
  | argument error => error.message
  | segment error => error.message
  | storage error => error.message

/-- The name of the kind of a console error; errors of the engine keep their own. -/
def label : ConsoleError → String
  | storeNotFound _ => "StoreNotFound"
  | pathRequired _ => "PathRequired"
  | verificationFailed _ => "VerificationFailed"
  | argument error => error.label
  | segment error => error.label
  | storage _ => "Storage"

/-- The structural form of a console error. -/
def form : ConsoleError → String
  | storeNotFound path => "StoreNotFound(" ++ Text.quoted path ++ ")"
  | pathRequired command => "PathRequired(" ++ Text.quoted command ++ ")"
  | verificationFailed problems => s!"VerificationFailed({problems})"
  | argument error => "Argument(" ++ error.form ++ ")"
  | segment error => "Segment(" ++ error.form ++ ")"
  | storage error => "Storage(" ++ error.form ++ ")"

end ConsoleError

end Segments
