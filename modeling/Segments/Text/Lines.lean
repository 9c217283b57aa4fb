/-!
# Lines of text

A text is made of lines, each ended by a line feed that may follow a carriage return; the last
line may lack its end.
-/

namespace Segments.Text

/-- Lines with their ends. -/
def unlines (lines : List String) : String := String.join (lines.map (· ++ "\n"))

/-- A line without a carriage return at its end. -/
def dropReturn (line : List Char) : List Char :=
  match line.reverse with
  | '\r' :: rest => rest.reverse
  | _ => line

/-- The lines of a text whose first line began with `begun`, in reverse. -/
def splitLines (begun : List Char) : List Char → List (List Char)
  | [] => if begun.isEmpty then [] else [begun.reverse]
  | c :: rest =>
    if c = '\n' then dropReturn begun.reverse :: splitLines [] rest
    else splitLines (c :: begun) rest

/-- The lines of a text without their ends. -/
def lines (text : String) : List String := (splitLines [] text.toList).map String.ofList

end Segments.Text
