import Segments.Text.Duration

/-!
# Rounded fractions

Fractions of natural numbers, rounded to the nearest with ties to the even neighbour: to a
whole number, to a fixed count of decimals, and to the 53 significant bits of a binary
floating-point number.
-/

namespace Segments.Text

/-- The whole number nearest to `num / den`, the even one of two that are equally near. -/
def roundDiv (num den : Nat) : Nat :=
  let whole := num / den
  let rest := num % den
  if 2 * rest < den then whole
  else if den < 2 * rest then whole + 1
  else if whole % 2 = 0 then whole else whole + 1

/-- `num / den` with a fixed count of decimals. -/
def fixedDecimal (decimals num den : Nat) : String :=
  let unit := Nat.pow 10 decimals
  let scaled := roundDiv (num * unit) den
  let whole := toString (scaled / unit)
  if decimals = 0 then whole
  else whole ++ "." ++ String.ofList (fixedDigits decimals (scaled % unit))

/-- The fraction with 53 significant bits that is nearest to `num / den`. -/
def nearestBinary (num den : Nat) : Nat × Nat :=
  if num = 0 ∨ den = 0 then (0, 1)
  else
    -- With this exponent the scaled quotient has 53 or 54 bits.
    let up := den.log2 + 53
    let down := num.log2
    let (n, d) := (num <<< (up - down), den <<< (down - up))
    let kept := if n / d < 1 <<< 53 then roundDiv n d else 2 * roundDiv n (2 * d)
    (kept <<< (down - up), 1 <<< (up - down))

/-- The sum of two fractions, rounded to 53 significant bits. -/
def addBinary (x y : Nat × Nat) : Nat × Nat :=
  nearestBinary (x.1 * y.2 + y.1 * x.2) (x.2 * y.2)

/-- The quotient of two fractions, rounded to 53 significant bits. -/
def divBinary (x y : Nat × Nat) : Nat × Nat :=
  nearestBinary (x.1 * y.2) (x.2 * y.1)

end Segments.Text
