/-!
# Drawing random values

A draw takes words from a seeded source and makes a value of them. Every draw is a function of
the state of the source, so a run can be repeated from its seed.
-/

namespace Segments

/-- A source of random words. -/
structure WordSource where
  /-- What the next word is computed from. -/
  state : UInt64
  deriving DecidableEq, Repr, Inhabited

namespace WordSource

/-- The next word: a counter with a large odd step, scrambled by two multiplications. -/
def next (s : WordSource) : UInt64 × WordSource :=
  let state := s.state + 0x9e3779b97f4a7c15
  let z := (state ^^^ (state >>> 30)) * 0xbf58476d1ce4e5b9
  let z := (z ^^^ (z >>> 27)) * 0x94d049bb133111eb
  (z ^^^ (z >>> 31), ⟨state⟩)

end WordSource

/-- A random value. -/
abbrev Draw (α : Type) : Type := StateM WordSource α

namespace Draw

/-- A number below a bound; zero if the bound is zero. -/
def below (bound : Nat) : Draw Nat := do
  let source ← get
  let (word, source) := source.next
  set source
  pure (word.toNat % bound)

/-- A number between two bounds, both included. -/
def between (low high : Int) : Draw Int := do
  let step ← below (high - low + 1).toNat
  pure (low + step)

/-- A byte. -/
def byte : Draw UInt8 := UInt8.ofNat <$> below 256

/-- One of some values. -/
def among {α : Type} (first : α) (others : List α) : Draw α := do
  let i ← below (others.length + 1)
  pure (((first :: others)[i]?).getD first)

/-- A list of a given length. -/
def listOf {α : Type} (item : Draw α) : Nat → Draw (List α)
  | 0 => pure []
  | length + 1 => do
    let first ← item
    let rest ← listOf item length
    pure (first :: rest)

/-- A list whose length lies between two bounds, both included. -/
def listBetween {α : Type} (item : Draw α) (low high : Nat) : Draw (List α) := do
  let extra ← below (high - low + 1)
  listOf item (low + extra)

/-- The value that a draw gives from a seed. -/
def sample {α : Type} (draw : Draw α) (seed : UInt64) : α := (draw.run ⟨seed⟩).1

end Draw

end Segments
