import Segments.Bytes

/-!
# Damage to stored bytes

What may happen to bytes at rest: bits of some bytes are flipped, the end is cut off, and other
bytes follow. Positions and cuts may be counted from the end, as negative numbers.
-/

namespace Segments

/-- Damage to a byte string, in the order in which it is done. -/
structure Damage where
  /-- Positions, and the bits that are flipped there. -/
  flips : List (Int × UInt8)
  /-- The number of bytes that are kept, or minus the number of those that are cut off. -/
  cut : Option Int
  /-- What follows. -/
  tail : Bytes
  deriving DecidableEq, Repr, Inhabited

namespace Damage

/-- A position from the start, given one from either end. -/
def position (size : Nat) (place : Int) : Option Nat :=
  let i := if place < 0 then size + place else place
  if 0 ≤ i ∧ i < size then some i.toNat else none

/-- Flips bits of one byte; a position outside changes nothing. -/
def flip (bytes : Bytes) (f : Int × UInt8) : Bytes :=
  match position bytes.length f.1 with
  | some i => bytes.modify i (· ^^^ f.2)
  | none => bytes

/-- Cuts the end off. -/
def cutTo (bytes : Bytes) (n : Int) : Bytes :=
  if n < 0 then bytes.take (bytes.length - n.natAbs) else bytes.take n.toNat

/-- Does the damage. -/
def apply (d : Damage) (bytes : Bytes) : Bytes :=
  let flipped := d.flips.foldl flip bytes
  let kept := match d.cut with
    | some n => cutTo flipped n
    | none => flipped
  kept ++ d.tail

end Damage

end Segments
