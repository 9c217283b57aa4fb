import Segments.Storage.Basic

/-!
# A device that crashes

A crash switch counts the bytes offered to a store. The append that crosses the threshold is
written in part, and every append after it fails, as if the process had died in mid-write.
-/

namespace Segments

/-- The state of a crash switch. -/
structure CrashSwitch where
  /-- The number of offered bytes at which the device crashes, if it is armed. -/
  threshold : Option Nat
  /-- Bytes offered so far, rejected ones included. -/
  offered : Nat
  /-- Whether the device has crashed. -/
  crashed : Bool
  /-- Whether flushes fail. -/
  failFlush : Bool
  deriving DecidableEq, Repr

namespace CrashSwitch

/-- A switch that is not armed. -/
def disarmed : CrashSwitch := ⟨none, 0, false, false⟩

instance : Inhabited CrashSwitch := ⟨disarmed⟩

/-- What becomes of an append of a length. -/
inductive Fate where
  /-- It is rejected. -/
  | rejected
  /-- Only so many of its bytes are written. -/
  | torn (kept : Nat)
  /-- It is written. -/
  | written
  deriving DecidableEq, Repr

/-- The fate of the next append. -/
def fate (s : CrashSwitch) (len : Nat) : Fate :=
  match s.threshold with
  | none => if s.crashed then .rejected else .written
  | some t =>
    if s.crashed ∨ t ≤ s.offered then .rejected
    else if t < s.offered + len then .torn (t - s.offered)
    else .written

/-- What decides the fate of an append of a length. -/
inductive Decides (s : CrashSwitch) (len : Nat) : Fate → Prop where
  /-- The device has crashed, or does so as there is no room left. -/
  | rejected (full : s.crashed = true ∨ ∃ t, s.threshold = some t ∧ t ≤ s.offered) :
      Decides s len .rejected
  /-- There is room for a part. -/
  | torn (t : Nat) (armed : s.threshold = some t) (whole : s.crashed = false)
      (room : s.offered < t) (short : t < s.offered + len) : Decides s len (.torn (t - s.offered))
  /-- There is room for all. -/
  | written (whole : s.crashed = false) (room : ∀ t, s.threshold = some t → s.offered + len ≤ t) :
      Decides s len .written

theorem decides_fate (s : CrashSwitch) (len : Nat) : s.Decides len (s.fate len) := by
  unfold fate
  cases harmed : s.threshold with
  | none =>
    cases hcrashed : s.crashed with
    | true => exact .rejected (Or.inl hcrashed)
    | false => exact .written hcrashed fun t ht => by simp [harmed] at ht
  | some t =>
    by_cases hfull : s.crashed = true ∨ t ≤ s.offered
    · simp only [if_pos hfull]
      exact .rejected (hfull.imp id fun hle => ⟨t, harmed, hle⟩)
    · simp only [if_neg hfull]
      rw [not_or, Bool.not_eq_true, Nat.not_le] at hfull
      by_cases hshort : t < s.offered + len
      · rw [if_pos hshort]
        exact .torn t harmed hfull.1 hfull.2 hshort
      · rw [if_neg hshort]
        refine .written hfull.1 fun t' ht' => ?_
        rw [harmed, Option.some.injEq] at ht'
        exact ht' ▸ Nat.not_lt.mp hshort

end CrashSwitch

/-- The error of a simulated crash. -/
def simulatedCrash (activity : String) : StorageError :=
  .io ("simulated crash during " ++ activity)

/-- A byte store behind a crash switch. -/
structure Crashable (σ : Type) where
  /-- The store that takes what comes through. -/
  inner : σ
  /-- The switch. -/
  switch : CrashSwitch
  deriving DecidableEq, Repr, Inhabited

namespace Crashable

variable {σ : Type} [ByteStore σ]

/-- Appends as far as the switch lets the bytes through. -/
def append (c : Crashable σ) (data : Bytes) : Crashable σ × Except StorageError Nat :=
  let counted := { c.switch with offered := c.switch.offered + data.length }
  match c.switch.fate data.length with
  | .rejected =>
    ({ c with switch := { counted with crashed := true } }, .error (simulatedCrash "write"))
  | .torn kept =>
    ({ inner := (ByteStore.append c.inner (data.take kept)).1
       switch := { counted with crashed := true } }, .error (simulatedCrash "partial write"))
  | .written =>
    let (inner, result) := ByteStore.append c.inner data
    ({ inner, switch := counted }, result)

/-- Flushes, or crashes when flushes are to fail. -/
def push (c : Crashable σ) (activity : String) (inner : σ → σ × Except StorageError Unit) :
    Crashable σ × Except StorageError Unit :=
  if c.switch.failFlush then
    ({ c with switch := { c.switch with crashed := true } }, .error (simulatedCrash activity))
  else
    let (s, result) := inner c.inner
    ({ c with inner := s }, result)

instance : ByteStore (Crashable σ) where
  readAt c := ByteStore.readAt c.inner
  append := append
  flush c := c.push "flush" ByteStore.flush
  sync c := c.push "sync" ByteStore.sync
  size c := ByteStore.size c.inner
  truncate c newSize :=
    let (s, result) := ByteStore.truncate c.inner newSize
    ({ c with inner := s }, result)

end Crashable

end Segments
