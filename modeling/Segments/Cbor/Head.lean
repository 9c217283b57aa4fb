import Segments.Bytes

/-!
# CBOR heads

Every CBOR item starts with a head: a major type and an argument, which is written in its
shortest form and read in any. `pull` reads one head, `pullPast` reads one behind tags, and
`stringBody` reads the bytes of a string, whose length may be left open.
-/

namespace Segments.Cbor

/-- The head of an item. An open length is `none`. -/
inductive Head where
  /-- A number. -/
  | positive (n : Nat)
  /-- The number `-1 - n`. -/
  | negative (n : Nat)
  /-- A byte string. -/
  | bytes (len : Option Nat)
  /-- A text. -/
  | text (len : Option Nat)
  /-- A list. -/
  | array (len : Option Nat)
  /-- Pairs of keys and values. -/
  | map (len : Option Nat)
  /-- A tag in front of an item. -/
  | tag (n : Nat)
  /-- A simple value. -/
  | simple (n : Nat)
  /-- A floating-point number; its value is of no interest here. -/
  | float
  /-- The end of an item of open length. -/
  | stop
  deriving DecidableEq, Repr

/-- A head in its shortest form. -/
def head (major n : Nat) : Bytes :=
  if n < 24 then [UInt8.ofNat (32 * major + n)]
  else if n < Bytes.capacity 1 then UInt8.ofNat (32 * major + 24) :: Bytes.bigEndian 1 n
  else if n < Bytes.capacity 2 then UInt8.ofNat (32 * major + 25) :: Bytes.bigEndian 2 n
  else if n < Bytes.capacity 4 then UInt8.ofNat (32 * major + 26) :: Bytes.bigEndian 4 n
  else UInt8.ofNat (32 * major + 27) :: Bytes.bigEndian 8 n

/-- A big-endian number of a width, and the rest. -/
def pullNumber (width : Nat) (rest : Bytes) : Option (Nat × Bytes) :=
  match Bytes.takeExactly width rest with
  | some (digits, rest') => some (Bytes.ofBigEndian digits, rest')
  | none => none

/-- The argument that the low five bits of the first byte announce; `none` when left open. -/
def pullArgument (info : Nat) (rest : Bytes) : Option (Option Nat × Bytes) :=
  let numbered (width : Nat) := (pullNumber width rest).map fun (n, rest') => (some n, rest')
  if info < 24 then some (some info, rest)
  else if info = 24 then numbered 1
  else if info = 25 then numbered 2
  else if info = 26 then numbered 4
  else if info = 27 then numbered 8
  else if info = 31 then some (none, rest)
  else none

/-- The head made of a major type, the low five bits and the argument. -/
def Head.ofParts (major info : Nat) (argument : Option Nat) : Option Head :=
  match major with
  | 0 => argument.map .positive
  | 1 => argument.map .negative
  | 2 => some (.bytes argument)
  | 3 => some (.text argument)
  | 4 => some (.array argument)
  | 5 => some (.map argument)
  | 6 => argument.map .tag
  | _ =>
    match argument with
    | none => some .stop
    | some n => if info ≤ 24 then some (.simple n) else some .float

/-- One head and the rest. -/
def pull : Bytes → Option (Head × Bytes)
  | [] => none
  | first :: rest =>
    match pullArgument (first.toNat % 32) rest with
    | none => none
    | some (argument, rest') =>
      match Head.ofParts (first.toNat / 32) (first.toNat % 32) argument with
      | none => none
      | some h => some (h, rest')

theorem length_of_pullNumber {width n : Nat} {rest rest' : Bytes}
    (h : pullNumber width rest = some (n, rest')) : rest'.length ≤ rest.length := by
  unfold pullNumber at h
  split at h
  · next digits r heq =>
    obtain ⟨rfl, _⟩ := Bytes.takeExactly_eq_some_iff.mp heq
    simp only [Option.some.injEq, Prod.mk.injEq] at h
    obtain ⟨_, rfl⟩ := h
    simp
  · simp at h

theorem length_of_pullArgument {info : Nat} {a : Option Nat} {rest rest' : Bytes}
    (h : pullArgument info rest = some (a, rest')) : rest'.length ≤ rest.length := by
  have key : ∀ width, ((pullNumber width rest).map fun (n, r) => (some n, r)) = some (a, rest') →
      rest'.length ≤ rest.length := by
    intro width hw
    obtain ⟨⟨n, r⟩, hn, he⟩ := Option.map_eq_some_iff.mp hw
    simp only [Prod.mk.injEq] at he
    obtain ⟨_, rfl⟩ := he
    exact length_of_pullNumber hn
  unfold pullArgument at h
  simp only at h
  split at h
  · simp only [Option.some.injEq, Prod.mk.injEq] at h
    simp [h.2]
  · split at h
    · exact key 1 h
    · split at h
      · exact key 2 h
      · split at h
        · exact key 4 h
        · split at h
          · exact key 8 h
          · split at h
            · simp only [Option.some.injEq, Prod.mk.injEq] at h
              simp [h.2]
            · simp at h

/-- A head takes at least one byte. -/
theorem length_of_pull {b rest : Bytes} {hd : Head} (h : pull b = some (hd, rest)) :
    rest.length < b.length := by
  cases b with
  | nil => simp [pull] at h
  | cons first tail =>
    simp only [pull] at h
    split at h
    · simp at h
    · next a r ha =>
      split at h
      · simp at h
      · simp only [Option.some.injEq, Prod.mk.injEq] at h
        obtain ⟨_, rfl⟩ := h
        have := length_of_pullArgument ha
        simp only [List.length_cons]
        omega

/-- One head behind any tags, except that a tag to be kept is a head of its own. -/
def pullPast (keep : Nat → Bool) (b : Bytes) : Option (Head × Bytes) :=
  match _h : pull b with
  | none => none
  | some (.tag n, rest) => if keep n then some (.tag n, rest) else pullPast keep rest
  | some (other, rest) => some (other, rest)
termination_by b.length
decreasing_by exact length_of_pull _h

/-- The form of string that is expected. -/
inductive StringForm where
  /-- Any bytes. -/
  | bytes
  /-- Well-formed UTF-8, piece by piece. -/
  | text
  deriving DecidableEq, Repr

namespace StringForm

/-- The length announced by a head of this form. -/
def length? : StringForm → Head → Option (Option Nat)
  | bytes, .bytes len => some len
  | text, .text len => some len
  | _, _ => none

/-- Whether the form takes a piece. -/
def accepts : StringForm → Bytes → Bool
  | bytes, _ => true
  | text, piece => (Bytes.text? piece).isSome

/-- A piece of known length. -/
def piece (form : StringForm) (len : Nat) (b : Bytes) : Option (Bytes × Bytes) :=
  match Bytes.takeExactly len b with
  | some (front, rest) => if form.accepts front then some (front, rest) else none
  | none => none

end StringForm

theorem length_of_piece {form : StringForm} {len : Nat} {b front rest : Bytes}
    (h : form.piece len b = some (front, rest)) : rest.length ≤ b.length := by
  unfold StringForm.piece at h
  split at h
  · next f r heq =>
    split at h
    · simp only [Option.some.injEq, Prod.mk.injEq] at h
      obtain ⟨rfl, rfl⟩ := h
      obtain ⟨rfl, _⟩ := Bytes.takeExactly_eq_some_iff.mp heq
      simp
    · simp at h
  · simp at h

/-- Collects the pieces of strings of open length, `opened` of which are not yet closed. -/
def gather (form : StringForm) (opened : Nat) (read b : Bytes) : Option (Bytes × Bytes) :=
  match _h : pull b with
  | none => none
  | some (.stop, rest) =>
    match opened with
    | 0 => none
    | 1 => some (read, rest)
    | n + 2 => gather form (n + 1) read rest
  | some (hd, rest) =>
    match form.length? hd with
    | none => none
    | some none => gather form (opened + 1) read rest
    | some (some len) =>
      match _hp : form.piece len rest with
      | none => none
      | some (front, rest') => gather form opened (read ++ front) rest'
termination_by b.length
decreasing_by
  · exact length_of_pull _h
  · exact length_of_pull _h
  · exact Nat.lt_of_le_of_lt (length_of_piece _hp) (length_of_pull _h)

/-- The content of a string whose head has been read. -/
def stringBody (form : StringForm) (len : Option Nat) (b : Bytes) : Option (Bytes × Bytes) :=
  match len with
  | some n => form.piece n b
  | none => gather form 1 [] b

end Segments.Cbor
