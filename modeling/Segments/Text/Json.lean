import Segments.Text.Hex

/-!
# JSON text

The values that reports are made of, and their text indented by two spaces: a list or an
object without members stays on one line, every other member has a line of its own.
-/

namespace Segments

/-- A value of a report. -/
inductive Json where
  /-- A truth value. -/
  | bool (b : Bool)
  /-- A whole number. -/
  | int (n : Int)
  /-- A text. -/
  | text (s : String)
  /-- A list. -/
  | list (items : List Json)
  /-- Named members in order. -/
  | object (members : List (String × Json))

namespace Json

/-- How a character is written inside a JSON string. -/
def escapeChar (c : Char) : List Char :=
  if c = '"' then ['\\', '"']
  else if c = '\\' then ['\\', '\\']
  else if c = '\n' then ['\\', 'n']
  else if c = '\r' then ['\\', 'r']
  else if c = '\t' then ['\\', 't']
  else if c.toNat = 8 then ['\\', 'b']
  else if c.toNat = 12 then ['\\', 'f']
  else if c.toNat < 0x20 then "\\u00".toList ++ Hex.ofByte (UInt8.ofNat c.toNat)
  else [c]

/-- A JSON string. -/
def string (s : String) : String :=
  String.ofList ('"' :: s.toList.flatMap escapeChar ++ ['"'])

/-- A line break followed by the indentation of a level. -/
def newline (level : Nat) : String :=
  "\n" ++ String.ofList (List.replicate (2 * level) ' ')

mutual

/-- The text of a value at a level of indentation. -/
def render (level : Nat) : Json → String
  | bool b => if b then "true" else "false"
  | int n => toString n
  | text s => string s
  | list [] => "[]"
  | list (item :: items) =>
    "[" ++ newline (level + 1) ++ render (level + 1) item ++ renderItems (level + 1) items
      ++ newline level ++ "]"
  | object [] => "\x7b\x7d"
  | object ((name, value) :: members) =>
    "\x7b" ++ newline (level + 1) ++ string name ++ ": " ++ render (level + 1) value
      ++ renderMembers (level + 1) members ++ newline level ++ "\x7d"

/-- The items after the first. -/
def renderItems (level : Nat) : List Json → String
  | [] => ""
  | item :: items => "," ++ newline level ++ render level item ++ renderItems level items

/-- The members after the first. -/
def renderMembers (level : Nat) : List (String × Json) → String
  | [] => ""
  | (name, value) :: members =>
    "," ++ newline level ++ string name ++ ": " ++ render level value ++ renderMembers level members

end

/-- The indented text of a value. -/
def pretty (value : Json) : String :=
  render 0 value

end Json

end Segments
