/-!
# Durations as text

A duration is a number of nanoseconds. It is written in the largest of seconds, milliseconds,
microseconds and nanoseconds that leaves a whole part, with as many fraction digits as it has.
-/

namespace Segments.Text

/-- The last `width` decimal digits of a number, with leading zeros. -/
def fixedDigits : Nat → Nat → List Char
  | 0, _ => []
  | width + 1, n => fixedDigits width (n / 10) ++ [Nat.digitChar (n % 10)]

/-- The digits without the zeros at their end. -/
def dropTrailingZeros (digits : List Char) : List Char :=
  (digits.reverse.dropWhile (· == '0')).reverse

/-- A whole part and a fraction of `width` digits, the fraction without trailing zeros. -/
def shortDecimal (whole fraction width : Nat) : String :=
  match dropTrailingZeros (fixedDigits width fraction) with
  | [] => toString whole
  | digits => toString whole ++ "." ++ String.ofList digits

/-- The text of a duration given in nanoseconds. -/
def duration (nanos : Nat) : String :=
  if 1000000000 ≤ nanos then
    shortDecimal (nanos / 1000000000) (nanos % 1000000000) 9 ++ "s"
  else if 1000000 ≤ nanos then
    shortDecimal (nanos / 1000000) (nanos % 1000000) 6 ++ "ms"
  else if 1000 ≤ nanos then
    shortDecimal (nanos / 1000) (nanos % 1000) 3 ++ "µs"
  else
    toString nanos ++ "ns"

end Segments.Text
