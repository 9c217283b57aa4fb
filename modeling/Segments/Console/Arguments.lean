import Segments.Console.Inspect
import Segments.Console.Verify

/-!
# Command lines

A command line is a command between its options, all of which may be given behind a short letter
or a long name. The options for the path and for more reports may stand before the command or
after it; what stands after it wins. A command line that breaks a rule is refused as a whole.
-/

namespace Segments

/-- An option that a command knows. -/
structure OptionSpec where
  /-- The letter. -/
  short : Char
  /-- The long name. -/
  long : String
  /-- Whether a value follows. -/
  takesValue : Bool
  deriving DecidableEq, Repr

/-- The options that were given, with their values. -/
abbrev GivenOptions := Table String String

/-- What a command line asks for. -/
inductive Command where
  /-- Summarize a store, with all attributes if asked to. -/
  | inspect (attributes : Bool) (format : OutputFormat)
  /-- Verify the files of a store. -/
  | verify (scope : VerifyScope)
  /-- Dump the journal from an offset on, up to a limit. -/
  | dump (limit : Option Nat) (offset : Nat) (format : OutputFormat)
  /-- Tell the version. -/
  | version
  deriving DecidableEq, Repr

/-- A command with the options that all commands have. -/
structure Invocation where
  /-- The path of the store directory. -/
  path : Option String
  /-- Whether more is to be reported. -/
  verbose : Bool
  /-- The command. -/
  command : Command
  deriving DecidableEq, Repr

namespace OptionSpec

/-- An option without a value. -/
def flag (short : Char) (long : String) : OptionSpec := ⟨short, long, false⟩

/-- An option with a value. -/
def valued (short : Char) (long : String) : OptionSpec := ⟨short, long, true⟩

/-- The options of all commands. -/
def shared : List OptionSpec := [valued 'p' "path", flag 'v' "verbose"]

/-- The options of a command, if there is one of that name. -/
def ofCommand? (name : String) : Option (List OptionSpec) :=
  match name with
  | "inspect" => some (shared ++ [flag 'a' "attributes", valued 'f' "format"])
  | "verify" => some (shared ++ [flag 'j' "journal", flag 'x' "attributes", flag 'a' "all"])
  | "dump-log" => some (shared ++ [valued 'l' "limit", valued 'o' "offset", valued 'f' "format"])
  | "version" => some shared
  | _ => none

end OptionSpec

namespace GivenOptions

/-- Gives an option; none can be given twice, and a path cannot be empty. -/
def give? (given : GivenOptions) (spec : OptionSpec) (value : String) : Option GivenOptions :=
  if given.contains spec.long ∨ (spec.long = "path" ∧ value = "") then none
  else some (given.insert spec.long value)

/-- Whether an option was given. -/
def has (given : GivenOptions) (long : String) : Bool := Table.contains given long

end GivenOptions

namespace CommandLine

/-- The options that were read, and the one that still waits for its value. -/
structure Reading where
  /-- The options that were read. -/
  given : GivenOptions
  /-- The option whose value is the next word. -/
  awaiting : Option OptionSpec

/-- Reads letters that stand behind one dash; the first one with a value takes the rest. -/
def readLetters (specs : List OptionSpec) : List Char → GivenOptions → Option Reading
  | [], given => some ⟨given, none⟩
  | letter :: rest, given =>
    match specs.find? fun s => s.short == letter with
    | none => none
    | some spec =>
      if !spec.takesValue then
        (GivenOptions.give? given spec "").bind (readLetters specs rest)
      else
        match rest with
        | [] => some ⟨given, some spec⟩
        | '=' :: value =>
          (GivenOptions.give? given spec (String.ofList value)).map (⟨·, none⟩)
        | value => (GivenOptions.give? given spec (String.ofList value)).map (⟨·, none⟩)

/-- Reads a long name, perhaps with a value behind an equals sign. -/
def readLong (specs : List OptionSpec) (word : List Char) (given : GivenOptions) :
    Option Reading :=
  let name := String.ofList (word.takeWhile (· ≠ '='))
  match specs.find? fun s => s.long == name, word.dropWhile (· ≠ '=') with
  | none, _ => none
  | some spec, [] =>
    if spec.takesValue then some ⟨given, some spec⟩
    else (GivenOptions.give? given spec "").map (⟨·, none⟩)
  | some spec, _ :: value =>
    if spec.takesValue then
      (GivenOptions.give? given spec (String.ofList value)).map (⟨·, none⟩)
    else none

/-- Whether a word looks like an option; a lone dash does not. -/
def isOption (word : String) : Bool :=
  match word.toList with
  | '-' :: _ :: _ => true
  | _ => false

/-- Reads options up to the first word that is none; two dashes end the options, and no word may
follow them. -/
def readOptions (specs : List OptionSpec) :
    Reading → List String → Option (GivenOptions × List String)
  | ⟨given, none⟩, [] => some (given, [])
  | ⟨_, some _⟩, [] => none
  | ⟨given, some spec⟩, word :: rest =>
    if isOption word then none
    else (GivenOptions.give? given spec word).bind fun given =>
      readOptions specs ⟨given, none⟩ rest
  | ⟨given, none⟩, word :: rest =>
    match word.toList with
    | ['-', '-'] => if rest.isEmpty then some (given, []) else none
    | '-' :: '-' :: name =>
      (readLong specs name given).bind fun reading => readOptions specs reading rest
    | '-' :: letter :: letters =>
      (readLetters specs (letter :: letters) given).bind fun reading =>
        readOptions specs reading rest
    | _ => some (given, word :: rest)

/-- The number that digits stand for, if it is below a bound; a plus sign may stand in front. -/
def number? (bound : Nat) (text : String) : Option Nat :=
  let digits := match text.toList with
    | '+' :: rest => rest
    | all => all
  if digits.isEmpty ∨ !digits.all Char.isDigit then none
  else
    let n := digits.foldl (fun n c => 10 * n + (c.toNat - '0'.toNat)) 0
    if n < bound then some n else none

/-- The number given for an option, or a default; nothing if it is no number. -/
def numberOf (given : GivenOptions) (long : String) (default : Option Nat) :
    Option (Option Nat) :=
  match Table.get? given long with
  | none => some default
  | some text => (number? (Bytes.capacity 8) text).map some

/-- The format that was given; lines unless told otherwise. -/
def formatOf (given : GivenOptions) : OutputFormat :=
  OutputFormat.ofName ((Table.get? given "format").getD "text")

/-- What a verification looks at: what was asked for, or everything. -/
def scopeOf (given : GivenOptions) : VerifyScope :=
  if given.has "all" ∨ !(given.has "journal" ∨ given.has "attributes") then .all
  else ⟨given.has "journal", given.has "attributes"⟩

/-- The command of a name with its options. -/
def command? (name : String) (given : GivenOptions) : Option Command :=
  match name with
  | "inspect" => some (.inspect (given.has "attributes") (formatOf given))
  | "verify" => some (.verify (scopeOf given))
  | "dump-log" => do
    let limit ← numberOf given "limit" none
    let offset ← numberOf given "offset" (some 0)
    pure (.dump limit (offset.getD 0) (formatOf given))
  | "version" => some .version
  | _ => none

/-- Reads a command line. -/
def parse? (words : List String) : Option Invocation := do
  let (before, rest) ← readOptions OptionSpec.shared ⟨.empty, none⟩ words
  let name :: rest := rest | none
  let specs ← OptionSpec.ofCommand? name
  let (after, rest) ← readOptions specs ⟨.empty, none⟩ rest
  guard rest.isEmpty
  let command ← command? name after
  pure ⟨(Table.get? after "path").or (Table.get? before "path"),
    after.has "verbose" || before.has "verbose", command⟩

end CommandLine

end Segments
