import Segments.Engine.Operation
import Segments.Proofs.Depiction

/-!
# An engine agrees with its account

`Agrees` says that what an open store has is what the account of its journal says. Turns, readers,
recency of attributes and registrations do not matter to it: engines that only these tell apart
are `Alike`.
-/

namespace Segments

namespace SegmentState

/-- Exactly active and sealed segments can be read. -/
theorem requireReadable_eq_ok {state : SegmentState} {segment : String} {u : Unit} :
    state.requireReadable segment = .ok u ↔ state = .active ∨ state = .sealed := by
  cases state <;> simp [requireReadable]

/-- Exactly active segments can be written. -/
theorem requireWritable_eq_ok {state : SegmentState} {segment : String} {u : Unit} :
    state.requireWritable segment = .ok u ↔ state = .active := by
  cases state <;> simp [requireWritable, requireReadable]

/-- What can be read was not merged away. -/
theorem ne_merged_of_readable {state : SegmentState} {segment : String} {u : Unit}
    (h : state.requireReadable segment = .ok u) : state ≠ .merged := by
  rintro rfl
  cases h

end SegmentState

namespace Engine

/-- What an open store has is what an account says. -/
structure Agrees (s : Engine) (a : Account) : Prop where
  /-- Each segment is as the account says. -/
  segment : ∀ id, Entry.Shows s.store id (s.entries.get? id) (a.segments id)
  /-- So are the names. -/
  names : ∀ n, s.names.get? n = a.names n
  /-- So is the number of the next segment. -/
  nextId : s.nextId = a.nextId
  /-- Numbers are given out in order. -/
  numbered : ∀ id e, s.entries.get? id = some e → id < s.nextId
  /-- Of segments to come is stored what was found. -/
  fresh : ∀ id, s.nextId ≤ id → s.store.valuesOf id = a.found id

/-- Engines that only turns, readers, recency and registrations tell apart. -/
structure Alike (s s' : Engine) : Prop where
  /-- The configurations agree. -/
  config : s'.config = s.config
  /-- The entries are alike. -/
  entry : ∀ id e, s.entries.get? id = some e → ∃ e', s'.entries.get? id = some e' ∧ e.Alike e'
  /-- There are no others. -/
  noEntry : ∀ id, s.entries.get? id = none → s'.entries.get? id = none
  /-- The names agree. -/
  names : s'.names = s.names
  /-- The next numbers agree. -/
  nextId : s'.nextId = s.nextId
  /-- The journals agree. -/
  log : s'.log = s.log
  /-- The attribute stores agree. -/
  store : s'.store = s.store
  /-- Both were shut down, or neither. -/
  closed : s'.closed = s.closed
  /-- The clocks agree. -/
  clock : s'.clock = s.clock

/-- How an engine goes on, with the account of its journal: no entry is lost, and each goes on. -/
def Precedes (s : Engine) (a : Account) (s' : Engine) (a' : Account) : Prop :=
  ∀ id e, s.entries.get? id = some e →
    ∃ e', s'.entries.get? id = some e' ∧ e.Precedes e' (a.segments id) (a'.segments id)

/-- An engine goes on to one that agrees with an account again. -/
structure Follows (s : Engine) (a : Account) (s' : Engine) (a' : Account) : Prop where
  /-- The new engine agrees with the new account. -/
  agrees : s'.Agrees a'
  /-- The old one goes on to it. -/
  precedes : s.Precedes a s' a'

variable {s s' s'' : Engine} {a a' a'' : Account}

theorem Precedes.refl (s : Engine) (a : Account) : s.Precedes a s a :=
  fun _ e he => ⟨e, he, .refl e _⟩

theorem Precedes.trans (h : s.Precedes a s' a') (h' : s'.Precedes a' s'' a'') :
    s.Precedes a s'' a'' := by
  intro id e he
  obtain ⟨e', he', hp⟩ := h id e he
  obtain ⟨e'', he'', hp'⟩ := h' id e' he'
  exact ⟨e'', he'', hp.trans hp'⟩

theorem Follows.trans (h : s.Follows a s' a') (h' : s'.Follows a' s'' a'') :
    s.Follows a s'' a'' := ⟨h'.agrees, h.precedes.trans h'.precedes⟩

namespace Alike

theorem refl (s : Engine) : s.Alike s :=
  ⟨rfl, fun _ e he => ⟨e, he, .refl e⟩, fun _ he => he, rfl, rfl, rfl, rfl, rfl, rfl⟩

theorem trans (h : s.Alike s') (h' : s'.Alike s'') : s.Alike s'' where
  config := h'.config.trans h.config
  entry id e he := by
    obtain ⟨e', he', halike⟩ := h.entry id e he
    obtain ⟨e'', he'', halike'⟩ := h'.entry id e' he'
    exact ⟨e'', he'', halike.trans halike'⟩
  noEntry id he := h'.noEntry id (h.noEntry id he)
  names := h'.names.trans h.names
  nextId := h'.nextId.trans h.nextId
  log := h'.log.trans h.log
  store := h'.store.trans h.store
  closed := h'.closed.trans h.closed
  clock := h'.clock.trans h.clock

/-- Changing one entry into one that is alike. -/
theorem modifyEntry (s : Engine) (id : SegmentId) {f : Entry → Entry}
    (hf : ∀ e, s.entries.get? id = some e → e.Alike (f e)) : s.Alike (s.modifyEntry id f) := by
  have hget := fun j => Table.get?_modify s.entries id j f
  refine ⟨rfl, fun j e he => ?_, fun j he => ?_, rfl, rfl, rfl, rfl, rfl, rfl⟩
  · by_cases hj : j = id
    · subst hj
      exact ⟨f e, by rw [Engine.modifyEntry, hget, if_pos rfl, he]; rfl, hf e he⟩
    · exact ⟨e, by rw [Engine.modifyEntry, hget, if_neg hj, he], .refl e⟩
  · rw [Engine.modifyEntry, hget, he]
    simp

/-- A change of a line leaves a store that is alike. -/
theorem modifyTurns (s : Engine) (id : SegmentId) (f : TurnLine → TurnLine) :
    s.Alike (s.modifyTurns id f) :=
  modifyEntry s id fun _ _ => ⟨rfl, rfl, .refl _, fun _ h => ⟨h.published, h.cached⟩⟩

/-- Touching attributes leaves a store that is alike. -/
theorem touch (s : Engine) (id : SegmentId) (ids : List AttributeId) :
    s.Alike (s.touch id ids) :=
  modifyEntry s id fun e _ => .touch e ids

/-- Leaving lines leaves a store that is alike. -/
theorem leaveAll (s : Engine) (places : List Place) : s.Alike (s.leaveAll places) := by
  induction places generalizing s with
  | nil => exact refl s
  | cons p places ih => exact (modifyTurns s p.segment _).trans (ih _)

/-- Other registrations make a store that is alike. -/
theorem withPending (s : Engine) (pending : Pending) : s.Alike { s with pending } :=
  ⟨rfl, fun _ e he => ⟨e, he, .refl e⟩, fun _ he => he, rfl, rfl, rfl, rfl, rfl, rfl⟩

/-- Settling an operation leaves a store that is alike. -/
theorem settle (s : Engine) (o : Operation) : s.Alike (s.settle o) := by
  unfold Engine.settle
  split
  · exact withPending s _
  · exact refl s

/-- Touching what a change consults leaves a store that is alike. -/
theorem touchConsultedBy (s : Engine) (how : Evaluation) (action : Action) :
    s.Alike (s.touchConsultedBy how action) := by
  unfold Engine.touchConsultedBy
  split
  · split
    · exact touch s _ _
    · exact refl s
  · split
    · exact touch s _ _
    · exact refl s
  · exact refl s

theorem touchConsulted (s : Engine) (action : Action) : s.Alike (s.touchConsulted action) :=
  touchConsultedBy s s.evaluation action

/-- Engines that are alike agree with the same account. -/
theorem agrees (h : s.Alike s') (ha : s.Agrees a) : s'.Agrees a where
  segment id := by
    rw [h.store]
    have hs := ha.segment id
    cases he : s.entries.get? id with
    | none =>
      rw [h.noEntry id he]
      rwa [he] at hs
    | some e =>
      obtain ⟨e', he', halike⟩ := h.entry id e he
      rw [he']
      rw [he] at hs
      exact halike.shows hs
  names n := by rw [h.names, ha.names]
  nextId := h.nextId.trans ha.nextId
  numbered id e' he' := by
    rw [h.nextId]
    cases he : s.entries.get? id with
    | none =>
      rw [h.noEntry id he] at he'
      cases he'
    | some e => exact ha.numbered id e he
  fresh id hid := by
    rw [h.store]
    exact ha.fresh id (h.nextId ▸ hid)

/-- An agreeing engine goes on to any that is alike. -/
theorem follows (h : s.Alike s') (ha : s.Agrees a) : s.Follows a s' a := by
  refine ⟨h.agrees ha, fun id e he => ?_⟩
  obtain ⟨e', he', halike⟩ := h.entry id e he
  exact ⟨e', he', halike.precedes _⟩

/-- The entry of a number is alike. -/
theorem entry_alike (h : s.Alike s') (id : SegmentId) : (s.entry id).Alike (s'.entry id) := by
  unfold Engine.entry
  cases he : s.entries.get? id with
  | none =>
    rw [h.noEntry id he]
    exact .refl _
  | some e =>
    obtain ⟨e', he', halike⟩ := h.entry id e he
    rw [he']
    exact halike

end Alike

/-- The entry of a segment that is there is found. -/
theorem entry_eq {id : SegmentId} {e : Entry} (he : s.entries.get? id = some e) :
    s.entry id = e := by
  rw [entry, he, Option.getD_some]

/-- A live segment has an account. -/
theorem Agrees.of_live (h : s.Agrees a) {id : SegmentId} {e : Entry} (hl : s.live? id = some e) :
    ∃ g, a.segments id = some g ∧ s.entries.get? id = some e ∧ e.metadata.id = id ∧
      e.Depicts g ∧ e.Carries s.store id g := by
  unfold live? at hl
  cases he : s.entries.get? id with
  | none => simp [he] at hl
  | some e' =>
    simp only [he] at hl
    split at hl
    · cases hl
    · next hlive =>
      rw [Option.some.injEq] at hl
      subst hl
      obtain ⟨g, hg, hown, hd, hc⟩ := (he ▸ h.segment id).of_entry hlive
      exact ⟨g, hg, rfl, hown, hd, hc⟩

/-- A segment with an account is live. -/
theorem Agrees.live (h : s.Agrees a) (hw : a.WellFormed) {id : SegmentId} {g : SegmentAccount}
    (hg : a.segments id = some g) :
    ∃ e, s.live? id = some e ∧ s.entries.get? id = some e ∧ e.metadata.id = id ∧ e.Depicts g ∧
      e.Carries s.store id g := by
  obtain ⟨e, he, hown, hd, hc⟩ := (hg ▸ h.segment id).of_account
  refine ⟨e, ?_, he, hown, hd, hc⟩
  have hlive : e.state ≠ .deleted := by
    rw [Entry.state, hd.state]
    exact (hw.segment id g hg).state_ne_deleted
  simp only [live?, he, hlive, ↓reduceIte]

/-- A segment that can be read has an account. -/
theorem Agrees.of_readable (h : s.Agrees a) {id : SegmentId}
    (hs : (s.entry id).state = .active ∨ (s.entry id).state = .sealed) :
    ∃ g, a.segments id = some g ∧ s.entries.get? id = some (s.entry id) ∧
      (s.entry id).metadata.id = id ∧ (s.entry id).Depicts g ∧
      (s.entry id).Carries s.store id g := by
  cases he : s.entries.get? id with
  | none =>
    rw [entry, he] at hs
    rcases hs with hs | hs <;> cases hs
  | some e =>
    rw [entry_eq he] at hs ⊢
    have hlive : e.metadata.state ≠ .deleted := by
      rcases hs with hs | hs <;> rw [Entry.state] at hs <;> rw [hs] <;> decide
    obtain ⟨g, hg, hown, hd, hc⟩ := (he ▸ h.segment id).of_entry hlive
    exact ⟨g, hg, rfl, hown, hd, hc⟩

end Engine

end Segments
