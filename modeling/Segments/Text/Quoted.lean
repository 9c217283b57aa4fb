import Segments.Text.Printing
import Segments.Text.Hex

/-!
# Quoted text

A text between double quotes. The quote, the backslash and the common control characters have
escapes of their own; every other character that does not print on its own is given by its
code point.
-/

namespace Segments.Text

/-- Whether a character is written as itself inside quotes. -/
def printsPlain (c : Char) : Bool :=
  if 0x20 ≤ c.toNat ∧ c.toNat ≤ 0x7e then true
  else !(inRanges extending c.toNat || inRanges unprintable c.toNat)

/-- How a character is written inside quotes. -/
def quoteChar (c : Char) : List Char :=
  if c = '"' then ['\\', '"']
  else if c = '\\' then ['\\', '\\']
  else if c = '\n' then ['\\', 'n']
  else if c = '\r' then ['\\', 'r']
  else if c = '\t' then ['\\', 't']
  else if c = Char.ofNat 0 then ['\\', '0']
  else if printsPlain c then [c]
  else "\\u\x7b".toList ++ (Hex.ofNat c.toNat).toList ++ ['}']

/-- A text in double quotes. -/
def quoted (text : String) : String :=
  String.ofList ('"' :: text.toList.flatMap quoteChar ++ ['"'])

end Segments.Text
