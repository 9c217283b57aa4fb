import Segments.Proofs.Cbor

/-!
# Readers that look no further than they read

Every reader of heads, strings, numbers and repeated items leaves bytes that are added at the end
of its input behind what it left before, and so does the skipping of an item of any kind. So of the
first part of some bytes a reader finds nothing, or what it finds in all of them; it never finds
something else because its input ends early.
-/

namespace Segments.Cbor

/-- A reader looks no further than it reads: bytes that are added at the end are left over. -/
def IsLocal {α : Type} (read : Bytes → Option (α × Bytes)) : Prop :=
  ∀ ⦃bytes : Bytes⦄ ⦃a : α⦄ ⦃rest : Bytes⦄, read bytes = some (a, rest) →
    ∀ more, read (bytes ++ more) = some (a, rest ++ more)

section Readers

variable {α β : Type}

/-- What is read of the first part of some bytes is read of all of them, and leaves more. -/
theorem IsLocal.of_append {read : Bytes → Option (α × Bytes)} (h : IsLocal read)
    {front more whole : Bytes} {a : α} (hwhole : read (front ++ more) = some (a, whole)) :
    read front = none ∨ ∃ rest, read front = some (a, rest) ∧ whole = rest ++ more := by
  cases hfront : read front with
  | none => exact Or.inl rfl
  | some p =>
    have hsame := h hfront more
    rw [hwhole] at hsame
    cases hsame
    exact Or.inr ⟨p.2, rfl, rfl⟩

/-- What is made of a value that is read locally is read locally. -/
theorem IsLocal.map {read : Bytes → Option (α × Bytes)} (h : IsLocal read) (f : α → β) :
    IsLocal fun b => (read b).map fun p => (f p.1, p.2) := by
  intro bytes b rest hread more
  obtain ⟨p, hp, heq⟩ := Option.map_eq_some_iff.mp hread
  cases heq
  simp only [h hp more, Option.map_some]

/-- A number of bytes is taken locally. -/
theorem isLocal_takeExactly (n : Nat) : IsLocal (Bytes.takeExactly n) := by
  intro bytes front rest h more
  obtain ⟨rfl, hlength⟩ := Bytes.takeExactly_eq_some_iff.mp h
  exact Bytes.takeExactly_eq_some_iff.mpr ⟨List.append_assoc _ _ _, hlength⟩

/-- A number of a given width is read locally. -/
theorem isLocal_pullNumber (width : Nat) : IsLocal (pullNumber width) := by
  intro bytes n rest h more
  unfold pullNumber at h ⊢
  split at h
  · next digits tail hdigits =>
    cases h
    rw [isLocal_takeExactly width hdigits more]
  · cases h

/-- The argument of a head is read locally. -/
theorem isLocal_pullArgument (info : Nat) : IsLocal (pullArgument info) := by
  have hnumbered (width : Nat) := (isLocal_pullNumber width).map some
  intro bytes argument rest h more
  unfold pullArgument at h ⊢
  dsimp only at h ⊢
  by_cases hdirect : info < 24
  · rw [if_pos hdirect] at h ⊢
    cases h
    rfl
  by_cases hone : info = 24
  · rw [if_neg hdirect, if_pos hone] at h ⊢
    exact hnumbered 1 h more
  by_cases htwo : info = 25
  · rw [if_neg hdirect, if_neg hone, if_pos htwo] at h ⊢
    exact hnumbered 2 h more
  by_cases hfour : info = 26
  · rw [if_neg hdirect, if_neg hone, if_neg htwo, if_pos hfour] at h ⊢
    exact hnumbered 4 h more
  by_cases height : info = 27
  · rw [if_neg hdirect, if_neg hone, if_neg htwo, if_neg hfour, if_pos height] at h ⊢
    exact hnumbered 8 h more
  rw [if_neg hdirect, if_neg hone, if_neg htwo, if_neg hfour, if_neg height] at h ⊢
  by_cases hopen : info = 31
  · rw [if_pos hopen] at h ⊢
    cases h
    rfl
  · rw [if_neg hopen] at h
    cases h

/-- A head is read locally. -/
theorem isLocal_pull : IsLocal pull := by
  intro bytes hd rest h more
  cases bytes with
  | nil => cases h
  | cons first tail =>
    simp only [pull] at h
    split at h
    · cases h
    next argument tail' hargument =>
    split at h
    · cases h
    next hd' hparts =>
    cases h
    simp only [List.cons_append, pull, isLocal_pullArgument _ hargument more, hparts]

/-- Where there is no head there is none past tags either. -/
theorem pullPast_of_none {keep : Nat → Bool} {b : Bytes} (h : pull b = none) :
    pullPast keep b = none := by
  rw [pullPast]
  split
  · rfl
  · next hn => simp [h] at hn
  · next hn => simp [h] at hn

/-- Behind a tag that is not kept, the head is the one of what follows. -/
theorem pullPast_of_tag {keep : Nat → Bool} {b rest : Bytes} {n : Nat}
    (h : pull b = some (.tag n, rest)) :
    pullPast keep b = if keep n then some (.tag n, rest) else pullPast keep rest := by
  rw [pullPast]
  split
  · next hn => simp [h] at hn
  · next hn =>
    rw [h] at hn
    cases hn
    rfl
  · next hne hn =>
    rw [h] at hn
    cases hn
    exact absurd rfl (hne n)

/-- A head past tags is read locally. -/
theorem isLocal_pullPast (keep : Nat → Bool) : IsLocal (pullPast keep) := by
  intro bytes
  induction bytes using pullPast.induct keep with
  | case1 bytes hpull =>
    intro hd rest h
    rw [pullPast_of_none hpull] at h
    cases h
  | case2 bytes n tail hpull hkeep =>
    intro hd rest h more
    rw [pullPast_of_tag hpull, if_pos hkeep] at h
    cases h
    rw [pullPast_of_tag (isLocal_pull hpull more), if_pos hkeep]
  | case3 bytes n tail hpull hkeep ih =>
    intro hd rest h more
    rw [pullPast_of_tag hpull, if_neg hkeep] at h
    rw [pullPast_of_tag (isLocal_pull hpull more), if_neg hkeep]
    exact ih h more
  | case4 bytes other tail hother hpull =>
    intro hd rest h more
    rw [pullPast_of_pull hpull fun n hn => hother n hn] at h
    cases h
    exact pullPast_of_pull (isLocal_pull hpull more) fun n hn => hother n hn

/-- A piece of a string is taken locally. -/
theorem isLocal_piece (form : StringForm) (len : Nat) : IsLocal (form.piece len) := by
  intro bytes front rest h more
  unfold StringForm.piece at h ⊢
  split at h
  · next front' tail htake =>
    split at h
    · next haccepts =>
      cases h
      simp only [isLocal_takeExactly len htake more, if_pos haccepts]
    · cases h
  · cases h

/-- One round of gathering the pieces of a string. -/
theorem gather_eq (form : StringForm) (opened : Nat) (read b : Bytes) :
    gather form opened read b =
      match pull b with
      | none => none
      | some (.stop, rest) =>
        match opened with
        | 0 => none
        | 1 => some (read, rest)
        | n + 2 => gather form (n + 1) read rest
      | some (hd, rest) =>
        match form.length? hd with
        | none => none
        | some none => gather form (opened + 1) read rest
        | some (some len) =>
          match form.piece len rest with
          | none => none
          | some (front, rest') => gather form opened (read ++ front) rest' := by
  rw [gather]
  split
  · next hpull => simp only [hpull]
  · next hpull =>
    rcases opened with _ | _ | n <;> simp only [hpull]
  · next hd rest hstop hpull =>
    simp only [hpull]
    cases form.length? hd with
    | none => rfl
    | some len =>
      cases len with
      | none => rfl
      | some len =>
        dsimp only
        split
        · next hpiece => rw [hpiece]
        · next hpiece => rw [hpiece]

/-- The pieces of a string without length are gathered locally. -/
theorem isLocal_gather (form : StringForm) (opened : Nat) (read : Bytes) :
    IsLocal (gather form opened read) := by
  intro bytes
  induction opened, read, bytes using gather.induct form with
  | case1 opened read bytes hpull =>
    intro content rest h
    rw [gather_eq, hpull] at h
    cases h
  | case2 read bytes tail hpull =>
    intro content rest h
    rw [gather_eq, hpull] at h
    cases h
  | case3 read bytes tail hpull =>
    intro content rest h more
    rw [gather_eq, hpull] at h
    cases h
    rw [gather_eq, isLocal_pull hpull more]
  | case4 read bytes tail hpull n ih =>
    intro content rest h more
    rw [gather_eq, hpull] at h
    rw [gather_eq, isLocal_pull hpull more]
    exact ih h more
  | case5 opened read bytes hd tail hstop hpull hlength =>
    intro content rest h
    simp only [gather_eq, hpull, hlength] at h
    cases h
  | case6 opened read bytes hd tail hstop hpull hlength ih =>
    intro content rest h more
    rw [gather_eq, hpull] at h
    rw [gather_eq, isLocal_pull hpull more]
    simp only [hlength] at h ⊢
    exact ih h more
  | case7 opened read bytes hd tail hstop hpull len hlength hpiece =>
    intro content rest h
    simp only [gather_eq, hpull, hlength, hpiece] at h
    cases h
  | case8 opened read bytes hd tail hstop hpull len hlength front tail' hpiece ih =>
    intro content rest h more
    rw [gather_eq, hpull] at h
    rw [gather_eq, isLocal_pull hpull more]
    simp only [hlength, hpiece, isLocal_piece form len hpiece more] at h ⊢
    exact ih h more

/-- The body of a string is read locally. -/
theorem isLocal_stringBody (form : StringForm) (len : Option Nat) :
    IsLocal (stringBody form len) := by
  cases len with
  | none => exact isLocal_gather form 1 []
  | some len => exact isLocal_piece form len

/-- A large number is read locally. -/
theorem isLocal_pullBignum (tag : Nat) : IsLocal (pullBignum tag) := by
  intro bytes n rest h more
  unfold pullBignum at h ⊢
  split at h
  · next len tail hpull =>
    split at h
    · next digits tail' hdigits =>
      dsimp only at h
      split at h
      · next hshort =>
        cases h
        simp only [isLocal_pull hpull more, isLocal_stringBody _ _ hdigits more, if_pos hshort]
      · cases h
    · cases h
  · cases h

/-- An integer is read locally. -/
theorem isLocal_pullInteger : IsLocal pullInteger := by
  intro bytes n rest h more
  unfold pullInteger at h ⊢
  split at h
  · next m tail hpull =>
    cases h
    rw [isLocal_pullPast _ hpull more]
  · next m tail hpull =>
    cases h
    rw [isLocal_pullPast _ hpull more]
  · next t tail hpull =>
    rw [isLocal_pullPast _ hpull more]
    exact isLocal_pullBignum t h more
  · cases h

/-- An integer between bounds is read locally. -/
theorem isLocal_pullBounded (lower upper : Int) : IsLocal (pullBounded lower upper) := by
  intro bytes n rest h more
  unfold pullBounded at h ⊢
  split at h
  · next m tail hpull =>
    split at h
    · next hbounds =>
      cases h
      simp only [isLocal_pullInteger hpull more, if_pos hbounds]
    · cases h
  · cases h

/-- A natural number below a bound is read locally. -/
theorem isLocal_pullNatural (bound : Nat) : IsLocal (pullNatural bound) := by
  intro bytes n rest h more
  unfold pullNatural at h ⊢
  split at h
  · next m tail hpull =>
    split at h
    · next hbounds =>
      cases h
      simp only [isLocal_pullInteger hpull more, if_pos hbounds]
    · cases h
  · cases h

section Repetition

variable {σ : Type} {step : σ → Bytes → Option (σ × Bytes)} (hstep : ∀ s, IsLocal (step s))

include hstep

/-- A local step that is repeated a number of times is local. -/
theorem IsLocal.repeatTimes (n : Nat) (s : σ) : IsLocal (repeatTimes step n s) := by
  induction n generalizing s with
  | zero =>
    intro bytes s' rest h more
    cases h
    rfl
  | succ n ih =>
    intro bytes s' rest h more
    rw [Cbor.repeatTimes] at h ⊢
    split at h
    · next s₁ tail hs₁ =>
      rw [hstep s hs₁ more]
      exact ih s₁ h more
    · cases h

omit hstep in
/-- Before the end mark there is one more round. -/
theorem repeatToStop_of_head {fuel : Nat} {s : σ} {bytes tail : Bytes} {hd : Head}
    (hpull : pull bytes = some (hd, tail)) (hhead : hd ≠ .stop) :
    repeatToStop step (fuel + 1) s bytes =
      match step s bytes with
      | some (s', rest) => repeatToStop step fuel s' rest
      | none => none := by
  rw [repeatToStop, hpull]
  cases hd with
  | stop => exact absurd rfl hhead
  | _ => rfl

/-- With more bytes at the end as many rounds lead to the end mark. -/
theorem repeatToStop_append {fuel fuel' : Nat} (hfuel : fuel ≤ fuel') {s s' : σ}
    {bytes rest : Bytes} (h : repeatToStop step fuel s bytes = some (s', rest)) (more : Bytes) :
    repeatToStop step fuel' s (bytes ++ more) = some (s', rest ++ more) := by
  induction fuel generalizing fuel' s bytes with
  | zero => cases h
  | succ fuel ih =>
    obtain ⟨fuel', rfl⟩ : ∃ n, fuel' = n + 1 := ⟨fuel' - 1, by omega⟩
    cases hpull : pull bytes with
    | none =>
      rw [repeatToStop, hpull] at h
      cases h
    | some p =>
      obtain ⟨hd, tail⟩ := p
      by_cases hhead : hd = .stop
      · subst hhead
        rw [repeatToStop, hpull] at h
        cases h
        rw [repeatToStop, isLocal_pull hpull more]
      · rw [repeatToStop_of_head hpull hhead] at h
        rw [repeatToStop_of_head (isLocal_pull hpull more) hhead]
        split at h
        · next s₁ tail' hs₁ =>
          rw [hstep s hs₁ more]
          exact ih (Nat.le_of_succ_le_succ hfuel) h
        · cases h

/-- So is one that is repeated as often as a head says, or until a stop. -/
theorem IsLocal.repeatFor (len : Option Nat) (s : σ) : IsLocal (repeatFor step len s) := by
  cases len with
  | some n => exact IsLocal.repeatTimes hstep n s
  | none =>
    intro bytes s' rest h more
    exact repeatToStop_append hstep (by rw [List.length_append]; omega) h more

end Repetition

/-- Skipping looks no further than what is skipped. -/
def SkipsLocally (skip : Bytes → Option Bytes) : Prop :=
  ∀ ⦃bytes rest : Bytes⦄, skip bytes = some rest →
    ∀ more, skip (bytes ++ more) = some (rest ++ more)

/-- What is skipped by reading is skipped locally. -/
theorem IsLocal.snd {read : Bytes → Option (α × Bytes)} (h : IsLocal read) :
    SkipsLocally fun b => (read b).map Prod.snd := by
  intro bytes rest hread more
  obtain ⟨p, hp, rfl⟩ := Option.map_eq_some_iff.mp hread
  simp only [h hp more, Option.map_some]

/-- An item without others in it is skipped locally. -/
theorem skipsLocally_skipFlat (hd : Head) : SkipsLocally (skipFlat hd) := by
  intro bytes rest h more
  cases hd with
  | bytes len => exact (isLocal_stringBody .bytes len).snd h more
  | text len => exact (isLocal_stringBody .text len).snd h more
  | simple n =>
    simp only [skipFlat] at h ⊢
    split at h
    · next hknown =>
      cases h
      rw [if_pos hknown]
    · cases h
  | positive n =>
    cases h
    rfl
  | negative n =>
    cases h
    rfl
  | float =>
    cases h
    rfl
  | array len => cases h
  | map len => cases h
  | tag n => cases h
  | stop => cases h

/-- A large number is skipped locally. -/
theorem skipsLocally_skipBignum (tag : Nat) : SkipsLocally (skipBignum tag) := by
  intro bytes rest h more
  unfold skipBignum at h ⊢
  split at h
  · next n tail hn =>
    split at h
    · next hlow =>
      cases h
      simp only [isLocal_pullBignum tag hn more, if_pos hlow]
    · cases h
  · cases h

/-- Whether a tag marks a number is told by the head behind it. -/
theorem isBignum_append {tag : Nat} {bytes tail : Bytes} {hd : Head}
    (h : pull bytes = some (hd, tail)) (more : Bytes) :
    isBignum tag (bytes ++ more) = isBignum tag bytes := by
  unfold isBignum
  rw [h, isLocal_pull h more]
  match hd with
  | .bytes (some len) => rfl
  | .bytes none => rfl
  | .positive _ | .negative _ | .text _ | .array _ | .map _ | .tag _ | .simple _ => rfl
  | .float | .stop => rfl

theorem isBignum_of_none {tag : Nat} {bytes : Bytes} (h : pull bytes = none) :
    isBignum tag bytes = false := by
  rw [isBignum, h]
  exact Bool.and_false _

theorem skip_of_none {depth : Nat} {bytes : Bytes} (h : pull bytes = none) :
    skip depth bytes = none := by
  cases depth <;> rw [skip, h]

/-- Skipping locally is reading nothing locally. -/
theorem SkipsLocally.isLocal {skip : Bytes → Option Bytes} (h : SkipsLocally skip) :
    IsLocal fun b => (skip b).map ((), ·) := by
  intro bytes u rest hskip more
  obtain ⟨tail, htail, heq⟩ := Option.map_eq_some_iff.mp hskip
  cases heq
  simp only [h htail more, Option.map_some]

/-- Skipping an item behind a tag, which marks a number or not. -/
theorem SkipsLocally.behindTag {skip : Bytes → Option Bytes} (h : SkipsLocally skip)
    (hnone : ∀ bytes, pull bytes = none → skip bytes = none) (tag : Nat) :
    SkipsLocally fun b => if isBignum tag b then skipBignum tag b else skip b := by
  intro bytes rest hskip more
  cases hpull : pull bytes with
  | none =>
    simp only [isBignum_of_none hpull, Bool.false_eq_true, if_false, hnone bytes hpull] at hskip
    cases hskip
  | some p =>
    simp only [isBignum_append hpull more] at hskip ⊢
    split at hskip
    · next hnumber =>
      rw [if_pos hnumber]
      exact skipsLocally_skipBignum tag hskip more
    · next hnumber =>
      rw [if_neg hnumber]
      exact h hskip more

/-- Two items are skipped locally, one after the other. -/
theorem SkipsLocally.twice {skip : Bytes → Option Bytes} (h : SkipsLocally skip) :
    IsLocal fun b =>
      match skip b with
      | some rest => (skip rest).map ((), ·)
      | none => none := by
  intro bytes u rest hskip more
  dsimp only at hskip ⊢
  split at hskip
  · next tail htail =>
    rw [h htail more]
    exact h.isLocal hskip more
  · cases hskip

theorem skipsLocally_none : SkipsLocally fun _ => none := by
  intro bytes rest h
  cases h

/-- Any item is skipped locally. -/
theorem skipsLocally_skip (depth : Nat) : SkipsLocally (skip depth) := by
  induction depth with
  | zero =>
    intro bytes rest h more
    rw [skip] at h ⊢
    split at h
    · next tag tail hpull =>
      rw [isLocal_pull hpull more]
      exact skipsLocally_none.behindTag (fun _ _ => rfl) tag h more
    · next hd tail htag hpull =>
      simp only [isLocal_pull hpull more]
      exact skipsLocally_skipFlat hd h more
    · cases h
  | succ depth ih =>
    intro bytes rest h more
    rw [skip] at h ⊢
    split at h
    · next len tail hpull =>
      rw [isLocal_pull hpull more]
      exact (IsLocal.repeatFor (fun _ => ih.isLocal) len ()).snd h more
    · next len tail hpull =>
      rw [isLocal_pull hpull more]
      exact (IsLocal.repeatFor (fun _ => ih.twice) len ()).snd h more
    · next tag tail hpull =>
      rw [isLocal_pull hpull more]
      exact ih.behindTag (fun _ => skip_of_none) tag h more
    · next hd tail harray hmap htag hpull =>
      simp only [isLocal_pull hpull more]
      exact skipsLocally_skipFlat hd h more
    · cases h

end Readers

end Segments.Cbor
