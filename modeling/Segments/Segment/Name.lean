import Segments.Error

/-!
# Segment names

A name is not empty, is short enough in UTF-8, and holds neither control characters nor the
characters that the engine reserves. The first of these rules that fails is the one reported.
-/

namespace Segments.SegmentName

/-- Whether a character is a control character. -/
def isControl (c : Char) : Bool :=
  decide (c.toNat < 0x20) || (decide (0x7f ≤ c.toNat) && decide (c.toNat ≤ 0x9f))

/-- Whether a character is reserved for names of the engine's own. -/
def isReserved (c : Char) : Bool := c == '#' || c == '$'

/-- Checks a name against the rules and a bound on its length in bytes. -/
def validate (name : String) (maxLength : Nat) : Except ArgumentError Unit :=
  if name.isEmpty then .error (.invalidSegmentName name "name is empty")
  else if maxLength < name.utf8ByteSize then .error (.invalidSegmentName name "name is too long")
  else if name.toList.any isControl then
    .error (.invalidSegmentName name "name contains a control character")
  else if name.toList.any isReserved then
    .error (.invalidSegmentName name "name contains a reserved character")
  else .ok ()

end Segments.SegmentName
