import Segments.Cbor.Head

/-!
# CBOR items

Integers, repetition, and items that are read only to be skipped. Nesting is bounded by a
depth, which every list, map and tag uses up by one; the tag of a number is not nesting.
-/

namespace Segments.Cbor

/-- A whole number in its shortest form. -/
def integer (n : Int) : Bytes :=
  if 0 ≤ n then head 0 n.toNat else head 1 (-1 - n).toNat

/-- Whether a tag marks a number given by its bytes. -/
def isBignumTag (n : Nat) : Bool := n == 2 || n == 3

/-- The number behind a bignum tag: a byte string of at most 16 significant bytes. -/
def pullBignum (tag : Nat) (b : Bytes) : Option (Int × Bytes) :=
  match pull b with
  | some (.bytes len, rest) =>
    match stringBody .bytes len rest with
    | some (digits, rest') =>
      let significant := digits.dropWhile (· == 0)
      if significant.length ≤ 16 then
        let n := Bytes.ofBigEndian significant
        some (if tag = 2 then (n : Int) else -1 - (n : Int), rest')
      else none
    | none => none
  | _ => none

/-- A whole number in any of its forms. -/
def pullInteger (b : Bytes) : Option (Int × Bytes) :=
  match pullPast isBignumTag b with
  | some (.positive n, rest) => some ((n : Int), rest)
  | some (.negative n, rest) => some (-1 - (n : Int), rest)
  | some (.tag t, rest) => pullBignum t rest
  | _ => none

/-- A whole number within bounds. -/
def pullBounded (lower upper : Int) (b : Bytes) : Option (Int × Bytes) :=
  match pullInteger b with
  | some (n, rest) => if lower ≤ n ∧ n ≤ upper then some (n, rest) else none
  | none => none

/-- A natural number below a bound. -/
def pullNatural (bound : Nat) (b : Bytes) : Option (Nat × Bytes) :=
  match pullInteger b with
  | some (n, rest) => if 0 ≤ n ∧ n < bound then some (n.toNat, rest) else none
  | none => none

section Repetition

variable {σ : Type}

/-- Repeats a step a number of times. -/
def repeatTimes (step : σ → Bytes → Option (σ × Bytes)) : Nat → σ → Bytes → Option (σ × Bytes)
  | 0, s, b => some (s, b)
  | n + 1, s, b =>
    match step s b with
    | some (s', rest) => repeatTimes step n s' rest
    | none => none

/-- Repeats a step until the end mark, at most `fuel` times. -/
def repeatToStop (step : σ → Bytes → Option (σ × Bytes)) : Nat → σ → Bytes → Option (σ × Bytes)
  | 0, _, _ => none
  | fuel + 1, s, b =>
    match pull b with
    | none => none
    | some (.stop, rest) => some (s, rest)
    | some _ =>
      match step s b with
      | some (s', rest) => repeatToStop step fuel s' rest
      | none => none

/-- Repeats a step as often as an announced length says; an open length lasts to the end mark. -/
def repeatFor (step : σ → Bytes → Option (σ × Bytes)) (len : Option Nat) (s : σ) (b : Bytes) :
    Option (σ × Bytes) :=
  match len with
  | some n => repeatTimes step n s b
  | none => repeatToStop step (b.length + 1) s b

end Repetition

/-- Whether a simple value is a truth value, null or undefined. -/
def isKnownSimple (n : Nat) : Bool := decide (20 ≤ n) && decide (n ≤ 23)

/-- Skips an item that holds no other items. -/
def skipFlat : Head → Bytes → Option Bytes
  | .positive _, rest => some rest
  | .negative _, rest => some rest
  | .float, rest => some rest
  | .simple n, rest => if isKnownSimple n then some rest else none
  | .bytes len, rest => (stringBody .bytes len rest).map Prod.snd
  | .text len, rest => (stringBody .text len rest).map Prod.snd
  | _, _ => none

/-- Whether a tag and what follows it are a number: a bignum tag before a byte string that is
announced with at most 16 bytes. Any other item behind such a tag is an item like any other. -/
def isBignum (tag : Nat) (rest : Bytes) : Bool :=
  isBignumTag tag &&
    match pull rest with
    | some (.bytes (some len), _) => decide (len ≤ 16)
    | _ => false

/-- Skips the bytes of a number that fits 128 bits with its sign. -/
def skipBignum (tag : Nat) (rest : Bytes) : Option Bytes :=
  match pullBignum tag rest with
  | some (n, rest') => if -((Bytes.capacity 16 / 2 : Nat) : Int) ≤ n then some rest' else none
  | none => none

/-- Skips one item of any kind, nested at most `depth` deep. -/
def skip : Nat → Bytes → Option Bytes
  | 0, b =>
    match pull b with
    | some (.tag t, rest) => if isBignum t rest then skipBignum t rest else none
    | some (hd, rest) => skipFlat hd rest
    | none => none
  | depth + 1, b =>
    let inner : Unit → Bytes → Option (Unit × Bytes) := fun _ b' => (skip depth b').map ((), ·)
    let pair : Unit → Bytes → Option (Unit × Bytes) := fun _ b' =>
      match skip depth b' with
      | some rest => inner () rest
      | none => none
    match pull b with
    | some (.array len, rest) => (repeatFor inner len () rest).map Prod.snd
    | some (.map len, rest) => (repeatFor pair len () rest).map Prod.snd
    | some (.tag t, rest) => if isBignum t rest then skipBignum t rest else skip depth rest
    | some (hd, rest) => skipFlat hd rest
    | none => none

end Segments.Cbor
