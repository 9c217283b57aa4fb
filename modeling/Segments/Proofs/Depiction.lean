import Segments.Proofs.Account
import Segments.Segment.Entry

/-!
# Entries that show what a journal says

`Shows` relates what a store has of one segment to what its journal says of it. A segment that was
deleted, or never created, has no account; one that was merged away has one, but nothing in
memory. The relation is kept when both sides take in the same change.
-/

namespace Segments

namespace Entry

/-- An entry has the fields that a journal says its segment has. -/
structure Depicts (e : Entry) (g : SegmentAccount) : Prop where
  /-- The name. -/
  name : e.metadata.name = g.name
  /-- The stage of life. -/
  state : e.metadata.state = g.state
  /-- The segment that took over the content. -/
  mergedInto : e.metadata.mergedInto = g.mergedInto
  /-- The length. -/
  length : e.metadata.length = g.length
  /-- The lowest readable offset. -/
  truncationOffset : e.metadata.truncationOffset = g.truncationOffset
  /-- The bytes. -/
  data : e.data = g.data

/-- A segment that can be read was not merged away. -/
theorem Depicts.ne_merged {e : Entry} {g : SegmentAccount} (h : e.Depicts g)
    (hreadable : e.state = .active ∨ e.state = .sealed) : g.state ≠ .merged := by
  rw [← h.state]
  rcases hreadable with hs | hs <;> rw [Entry.state] at hs <;> rw [hs] <;> decide

/-- The attributes of an entry are the committed ones, or gone with a merge. -/
structure Carries (e : Entry) (store : AttributeStore) (id : SegmentId) (g : SegmentAccount) :
    Prop where
  /-- Unless the segment was merged away, its tiers agree on the committed values. -/
  coherent : g.state ≠ .merged → e.metadata.attributes.Coherent store id g.attributes
  /-- Of a segment that was merged away memory knows nothing. -/
  released : g.state = .merged → ∀ x, e.metadata.attributes.resident? x = none

/-- What a store has of a segment is what its journal says. -/
inductive Shows (store : AttributeStore) (id : SegmentId) :
    Option Entry → Option SegmentAccount → Prop where
  /-- The segment was never created. -/
  | absent : Shows store id none none
  /-- The segment was deleted. -/
  | gone {e : Entry} (own : e.metadata.id = id) (deleted : e.metadata.state = .deleted)
      (unstored : ∀ x, e.metadata.attributes.unstored.get? x = none) : Shows store id (some e) none
  /-- The segment is there. -/
  | present {e : Entry} {g : SegmentAccount} (own : e.metadata.id = id) (depicts : e.Depicts g)
      (carries : e.Carries store id g) : Shows store id (some e) (some g)

variable {store : AttributeStore} {id : SegmentId} {e? : Option Entry}
  {g? : Option SegmentAccount} {e : Entry} {g : SegmentAccount}

/-- Of the store only the extended values of a segment that was not merged away matter. -/
theorem Carries.congr_store (h : e.Carries store id g) {store' : AttributeStore}
    (he : g.state ≠ .merged → ∀ x, x.isCore = false → store'.value id x = store.value id x) :
    e.Carries store' id g :=
  ⟨fun hm => (h.coherent hm).congr_store (he hm), h.released⟩

/-- The relation looks at the store only for the extended values of a segment that is there and was
not merged away. -/
theorem Shows.congr_store (h : Shows store id e? g?) {store' : AttributeStore}
    (he : ∀ g, g? = some g → g.state ≠ .merged →
      ∀ x, x.isCore = false → store'.value id x = store.value id x) :
    Shows store' id e? g? := by
  cases h with
  | absent => exact .absent
  | gone own deleted unstored => exact .gone own deleted unstored
  | present own depicts carries => exact .present own depicts (carries.congr_store (he _ rfl))

/-- A segment with an account has an entry. -/
theorem Shows.of_account (h : Shows store id e? (some g)) :
    ∃ e, e? = some e ∧ e.metadata.id = id ∧ e.Depicts g ∧ e.Carries store id g := by
  cases h with
  | present own depicts carries => exact ⟨_, rfl, own, depicts, carries⟩

/-- An entry that was not deleted has an account. -/
theorem Shows.of_entry (h : Shows store id (some e) g?) (hlive : e.metadata.state ≠ .deleted) :
    ∃ g, g? = some g ∧ e.metadata.id = id ∧ e.Depicts g ∧ e.Carries store id g := by
  cases h with
  | gone own deleted unstored => exact absurd deleted hlive
  | present own depicts carries => exact ⟨_, rfl, own, depicts, carries⟩

end Entry

/-- The metadata without the attributes. -/
def Metadata.bare (m : Metadata) : Metadata := { m with attributes := .empty }

namespace AttributeTiers

/-- Tiers that only the recency of cached values tells apart. -/
structure Alike (t t' : AttributeTiers) : Prop where
  /-- The same values are resident. -/
  peek : ∀ x, t'.cache.peek x = t.cache.peek x
  /-- The same values wait for the store. -/
  unstored : t'.unstored = t.unstored
  /-- They changed as often. -/
  epoch : t'.epoch = t.epoch

theorem Alike.refl (t : AttributeTiers) : t.Alike t := ⟨fun _ => rfl, rfl, rfl⟩

theorem Alike.trans {t t' t'' : AttributeTiers} (h : t.Alike t') (h' : t'.Alike t'') :
    t.Alike t'' :=
  ⟨fun x => (h'.peek x).trans (h.peek x), h'.unstored.trans h.unstored, h'.epoch.trans h.epoch⟩

/-- Touching attributes changes only when they were used. -/
theorem alike_touchAll (t : AttributeTiers) (ids : List AttributeId) : t.Alike (t.touchAll ids) :=
  ⟨fun x => AttributeCache.peek_foldl_touch ids t.cache x, rfl, rfl⟩

/-- The same values are resident. -/
theorem Alike.resident? {t t' : AttributeTiers} (h : t.Alike t') (x : AttributeId) :
    t'.resident? x = t.resident? x := by
  rw [AttributeTiers.resident?, AttributeTiers.resident?, h.peek, h.unstored]

/-- Coherence does not depend on when attributes were used. -/
theorem Alike.coherent {t t' : AttributeTiers} (h : t.Alike t') {store : AttributeStore}
    {segment : SegmentId} {committed : AttributeId → AttributeValue}
    (hc : t.Coherent store segment committed) : t'.Coherent store segment committed :=
  hc.of_cache h.unstored (fun x _ => h.peek x) (fun x v _ hv => Or.inl (by rwa [h.peek x] at hv))

end AttributeTiers

namespace Entry

/-- Readers were told the present tail, and at most so many extended values are in memory. -/
structure InOrder (max : Nat) (e : Entry) : Prop where
  /-- The tail last published is the present one. -/
  published : e.published = e.metadata.tail
  /-- The resident extended values are within the bound. -/
  cached : e.metadata.attributes.cache.extended.size ≤ max

/-- Entries that only recency, turns, readers and publications tell apart. -/
structure Alike (e e' : Entry) : Prop where
  /-- The metadata agree but for the attributes. -/
  metadata : e'.metadata.bare = e.metadata.bare
  /-- The bytes agree. -/
  data : e'.data = e.data
  /-- The attributes agree but for recency. -/
  attributes : e.metadata.attributes.Alike e'.metadata.attributes
  /-- What was in order still is. -/
  inOrder : ∀ max, e.InOrder max → e'.InOrder max

namespace Alike

variable {e e' e'' : Entry}

theorem refl (e : Entry) : e.Alike e := ⟨rfl, rfl, .refl _, fun _ h => h⟩

theorem trans (h : e.Alike e') (h' : e'.Alike e'') : e.Alike e'' :=
  ⟨h'.metadata.trans h.metadata, h'.data.trans h.data, h.attributes.trans h'.attributes,
    fun max ho => h'.inOrder max (h.inOrder max ho)⟩

/-- Marking attributes as used. -/
theorem touch (e : Entry) (ids : List AttributeId) : e.Alike { e with metadata :=
    { e.metadata with attributes := e.metadata.attributes.touchAll ids } } :=
  ⟨rfl, rfl, AttributeTiers.alike_touchAll _ ids, fun _ h => ⟨h.published,
    Nat.le_trans (Nat.le_of_eq (AttributeCache.size_foldl_touch ids _)) h.cached⟩⟩

/-- Telling readers the tail. -/
theorem publish (e : Entry) : e.Alike e.publish :=
  ⟨rfl, rfl, .refl _, fun _ h => ⟨rfl, h.cached⟩⟩

/-- Whatever does not look at the attributes agrees. -/
theorem of_metadata (h : e.Alike e') {β : Type} (f : Metadata → β)
    (hf : ∀ m, f m.bare = f m) : f e'.metadata = f e.metadata := by
  rw [← hf, h.metadata, hf]

/-- The number is the same. -/
theorem id (h : e.Alike e') : e'.metadata.id = e.metadata.id :=
  h.of_metadata Metadata.id fun _ => rfl

/-- The stage of life is the same. -/
theorem state (h : e.Alike e') : e'.metadata.state = e.metadata.state :=
  h.of_metadata Metadata.state fun _ => rfl

/-- The length is the same. -/
theorem length (h : e.Alike e') : e'.metadata.length = e.metadata.length :=
  h.of_metadata Metadata.length fun _ => rfl

/-- What is alike shows the same of an account. -/
theorem depicts (h : e.Alike e') {g : SegmentAccount} (hd : e.Depicts g) : e'.Depicts g where
  name := (h.of_metadata Metadata.name fun _ => rfl).trans hd.name
  state := h.state.trans hd.state
  mergedInto := (h.of_metadata Metadata.mergedInto fun _ => rfl).trans hd.mergedInto
  length := h.length.trans hd.length
  truncationOffset :=
    (h.of_metadata Metadata.truncationOffset fun _ => rfl).trans hd.truncationOffset
  data := h.data.trans hd.data

/-- What is alike carries the same committed values. -/
theorem carries (h : e.Alike e') {store : AttributeStore} {id : SegmentId} {g : SegmentAccount}
    (hc : e.Carries store id g) : e'.Carries store id g :=
  ⟨fun hm => h.attributes.coherent (hc.coherent hm),
    fun hm x => (h.attributes.resident? x).trans (hc.released hm x)⟩

/-- What is alike shows a segment alike. -/
theorem shows (h : e.Alike e') {store : AttributeStore} {id : SegmentId}
    {g? : Option SegmentAccount} (hs : Shows store id (some e) g?) :
    Shows store id (some e') g? := by
  cases hs with
  | gone own deleted unstored =>
    exact .gone (h.id.trans own) (h.state.trans deleted)
      fun x => by rw [h.attributes.unstored, unstored x]
  | present own depicts carries =>
    exact .present (h.id.trans own) (h.depicts depicts) (h.carries carries)

end Alike

/-- How an entry goes on, with what the journal says of its segment: the length does not shrink,
and while no change of extended attributes is counted, none of them is committed. -/
structure Precedes (e e' : Entry) (g? g'? : Option SegmentAccount) : Prop where
  /-- The length does not shrink. -/
  length : e.metadata.length ≤ e'.metadata.length
  /-- The tiers go on. -/
  tiers : e.metadata.attributes.Precedes e'.metadata.attributes
  /-- Without a counted change the committed extended values are what they were. -/
  committed : e'.metadata.attributes.epoch = e.metadata.attributes.epoch → ∀ g', g'? = some g' →
    ∃ g, g? = some g ∧ (g.state ≠ .merged → g'.state ≠ .merged) ∧
      ∀ x, x.isCore = false → g'.attributes x = g.attributes x

namespace Precedes

variable {e e' e'' : Entry} {g? g'? g''? : Option SegmentAccount}

/-- An entry goes on whose segment has the same account, if it gets no shorter. -/
theorem of_same (hlength : e.metadata.length ≤ e'.metadata.length)
    (htiers : e.metadata.attributes.Precedes e'.metadata.attributes) : e.Precedes e' g? g? :=
  ⟨hlength, htiers, fun _ g hg => ⟨g, hg, fun hm => hm, fun _ _ => rfl⟩⟩

theorem refl (e : Entry) (g? : Option SegmentAccount) : e.Precedes e g? g? :=
  of_same (Nat.le_refl _) (.refl _)

theorem trans (h : e.Precedes e' g? g'?) (h' : e'.Precedes e'' g'? g''?) :
    e.Precedes e'' g? g''? := by
  refine ⟨Nat.le_trans h.length h'.length, h.tiers.trans h'.tiers, fun he g'' hg'' => ?_⟩
  have h1 := h.tiers.epoch
  have h2 := h'.tiers.epoch
  obtain ⟨g', hg', hm', hsame'⟩ := h'.committed (by omega) g'' hg''
  obtain ⟨g, hg, hm, hsame⟩ := h.committed (by omega) g' hg'
  exact ⟨g, hg, fun hs => hm' (hm hs), fun x hx => (hsame' x hx).trans (hsame x hx)⟩

/-- When a change is counted, nothing is said of the values. -/
theorem of_epoch_lt (hlength : e.metadata.length ≤ e'.metadata.length)
    (hepoch : e.metadata.attributes.epoch < e'.metadata.attributes.epoch) :
    e.Precedes e' g? g'? :=
  ⟨hlength, ⟨Nat.le_of_lt hepoch, fun he => by omega⟩, fun he => by omega⟩

end Precedes

/-- An entry goes on as one that is alike. -/
theorem Alike.precedes {e e' : Entry} (h : e.Alike e') (g? : Option SegmentAccount) :
    e.Precedes e' g? g? :=
  .of_same (Nat.le_of_eq h.length.symm) ⟨Nat.le_of_eq h.attributes.epoch.symm,
    fun _ x hx => by rw [h.attributes.unstored, hx]⟩

end Entry

end Segments
