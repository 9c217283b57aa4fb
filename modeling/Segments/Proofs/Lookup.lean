import Segments.Proofs.Residence

/-!
# Look-ups in flight

A look-up leaves the segment while the attribute store is read. What it may rely on when it comes
back is the epoch: as long as that is the one of its first phase, nothing that it asked for has
been committed, so that what it has read is still the committed value. Otherwise it reads again.
Hence no value that it makes resident is out of date.
-/

namespace Segments

namespace AttributeStore

/-- A list of what was found for some keys has for each what was found for it. -/
theorem lookup_filterMap {β : Type} (ids : List AttributeId) (f : AttributeId → Option β)
    (x : AttributeId) :
    (ids.filterMap fun id => (f id).map (id, ·)).lookup x = if x ∈ ids then f x else none := by
  induction ids with
  | nil => rfl
  | cons id ids ih =>
    cases hf : f id with
    | none =>
      rw [List.filterMap_cons, hf]
      simp only [Option.map_none, ih, List.mem_cons]
      by_cases hx : x = id
      · subst hx
        simp [hf]
      · simp [hx]
    | some v =>
      rw [List.filterMap_cons, hf]
      simp only [Option.map_some, List.lookup_cons, ih, List.mem_cons]
      by_cases hx : x = id
      · subst hx
        simp [hf]
      · have hne : (x == id) = false := by simpa using hx
        simp [hx, hne]

/-- A look-up in the store finds what is stored of what it asks for. -/
theorem lookup_lookup (s : AttributeStore) (segment : SegmentId) (ids : List AttributeId)
    (x : AttributeId) :
    (s.lookup segment ids).lookup x = if x ∈ ids then s.get? segment x else none := by
  rw [AttributeStore.lookup, AttributeIndex.lookup, lookup_filterMap]
  simp only [List.mem_eraseDups, AttributeStore.get?]

end AttributeStore

namespace AttributeLookup

/-- A look-up that has yet to read the store, with the entry and what the journal says of it. -/
structure Pending (l : AttributeLookup) (e : Entry) (g? : Option SegmentAccount) : Prop where
  /-- It began at this epoch or before. -/
  epoch : l.epoch ≤ e.metadata.attributes.epoch
  /-- It misses extended attributes only. -/
  extended : ∀ x ∈ l.missing, x.isCore = false
  /-- Within its epoch nothing that it misses waits for the store. -/
  unknown : e.metadata.attributes.epoch = l.epoch →
    ∀ x ∈ l.missing, e.metadata.attributes.unstored.get? x = none
  /-- Within its epoch the segment was not merged away. -/
  unmerged : e.metadata.attributes.epoch = l.epoch → ∀ g, g? = some g → g.state ≠ .merged

/-- A look-up that has read the store. -/
structure Read (l : AttributeLookup) (values : AttributeValues) (e : Entry)
    (g? : Option SegmentAccount) : Prop where
  /-- It began at this epoch or before. -/
  epoch : l.epoch ≤ e.metadata.attributes.epoch
  /-- It misses extended attributes only. -/
  extended : ∀ x ∈ l.missing, x.isCore = false
  /-- It has read nothing else. -/
  only : ∀ x, x ∉ l.missing → values.lookup x = none
  /-- Within its epoch the values are the committed ones. -/
  current : e.metadata.attributes.epoch = l.epoch → ∀ g, g? = some g →
    ∀ x ∈ l.missing, (values.lookup x).getD nullValue = g.attributes x

variable {l : AttributeLookup} {e e' : Entry} {g? g'? : Option SegmentAccount}
  {values : AttributeValues}

/-- A look-up can still be read for when the entry has gone on. -/
theorem Pending.precedes (h : l.Pending e g?) (hp : e.Precedes e' g? g'?) : l.Pending e' g'? := by
  have hle := hp.tiers.epoch
  have hsame : e'.metadata.attributes.epoch = l.epoch →
      e.metadata.attributes.epoch = l.epoch ∧
      e'.metadata.attributes.epoch = e.metadata.attributes.epoch := by
    intro he
    have := h.epoch
    omega
  refine ⟨Nat.le_trans h.epoch hle, h.extended, fun he x hx => ?_, fun he g' hg' => ?_⟩
  · obtain ⟨h1, h2⟩ := hsame he
    exact hp.tiers.unstored h2 x (h.unknown h1 x hx)
  · obtain ⟨h1, h2⟩ := hsame he
    obtain ⟨g, hg, hm, -⟩ := hp.committed h2 g' hg'
    exact hm (h.unmerged h1 g hg)

/-- What was read is still right when the entry has gone on. -/
theorem Read.precedes (h : l.Read values e g?) (hp : e.Precedes e' g? g'?) :
    l.Read values e' g'? := by
  refine ⟨Nat.le_trans h.epoch hp.tiers.epoch, h.extended, h.only, fun he g' hg' x hx => ?_⟩
  have hle := hp.tiers.epoch
  have hle' := h.epoch
  obtain ⟨g, hg, -, hsame⟩ := hp.committed (by omega) g' hg'
  rw [hsame x (h.extended x hx)]
  exact h.current (by omega) g hg x hx

/-- What a look-up has read from the store is committed if nothing was since it began. -/
theorem Pending.read (h : l.Pending e g?) {store : AttributeStore} {segment : SegmentId}
    (hc : ∀ g, g? = some g → e.Carries store segment g) :
    l.Read (store.lookup segment l.missing) e g? := by
  refine ⟨h.epoch, h.extended, fun x hx => ?_, fun he g hg x hx => ?_⟩
  · rw [AttributeStore.lookup_lookup, if_neg hx]
  · have hback := ((hc g hg).coherent (h.unmerged he g hg)).backed x (h.extended x hx)
    rw [h.unknown he x hx] at hback
    rw [AttributeStore.lookup_lookup, if_pos hx]
    exact hback

variable {t : AttributeTiers} {store : AttributeStore} {segment : SegmentId}
  {committed : AttributeId → AttributeValue}

/-- Settling an attribute changes neither what waits nor the epoch. -/
theorem settle_same (fetched : AttributeValues) (t : AttributeTiers) (answers : AttributeValues)
    (x : AttributeId) : (settle fetched (t, answers) x).1.unstored = t.unstored ∧
      (settle fetched (t, answers) x).1.epoch = t.epoch := by
  cases hr : t.resident? x with
  | some v => simp only [settle, hr, and_self]
  | none => cases hf : fetched.lookup x <;> simp only [settle, hr, hf, and_self]

/-- Making a committed value resident keeps the agreement. -/
theorem coherent_settle (hc : t.Coherent store segment committed) {fetched : AttributeValues}
    {x : AttributeId} (hx : x.isCore = false)
    (hv : t.unstored.get? x = none → ∀ v, fetched.lookup x = some v → v = committed x)
    (answers : AttributeValues) :
    (settle fetched (t, answers) x).1.Coherent store segment committed := by
  cases hr : t.resident? x with
  | some v => simpa only [settle, hr] using hc
  | none =>
    obtain ⟨hpeek, hun⟩ := Option.or_eq_none_iff.mp hr
    cases hf : fetched.lookup x with
    | none => simpa only [settle, hr, hf] using hc
    | some v =>
      simp only [settle, hr, hf]
      have hget := AttributeCache.peek_insertIfAbsent t.cache hpeek v
      refine hc.of_cache rfl (fun y hy => ?_) (fun y w hy hw => ?_)
      · have hne : y ≠ x := by
          rintro rfl
          rw [hx] at hy
          cases hy
        exact (hget y).trans (if_neg hne)
      · by_cases hyx : y = x
        · subst hyx
          have hkept := (hget y).symm.trans hw
          rw [if_pos rfl] at hkept
          exact Or.inr ((eq_of_kept_eq_some hkept).trans (hv hun v hf))
        · exact Or.inl (((hget y).trans (if_neg hyx)).symm.trans hw)

/-- Settling attributes with committed values keeps the tiers coherent. -/
theorem coherent_foldl_settle {ids : List AttributeId} {fetched : AttributeValues}
    (hx : ∀ x ∈ ids, x.isCore = false) (hc : t.Coherent store segment committed)
    (hv : ∀ x ∈ ids, t.unstored.get? x = none → ∀ v, fetched.lookup x = some v →
      v = committed x) (answers : AttributeValues) :
    (ids.foldl (settle fetched) (t, answers)).1.Coherent store segment committed := by
  induction ids generalizing t answers with
  | nil => exact hc
  | cons x ids ih =>
    have hc' := coherent_settle hc (hx x List.mem_cons_self) (hv x List.mem_cons_self) answers
    have hun := (settle_same fetched t answers x).1
    rw [List.foldl_cons]
    generalize settle fetched (t, answers) x = next at hc' hun
    obtain ⟨t', answers'⟩ := next
    simp only at hun
    exact ih (fun y hy => hx y (List.mem_cons_of_mem _ hy)) hc'
      (fun y hy hy' => hv y (List.mem_cons_of_mem _ hy) (hun ▸ hy')) answers'

/-- Settling attributes changes neither what waits nor the epoch. -/
theorem foldl_settle_same (ids : List AttributeId) (fetched : AttributeValues)
    (t : AttributeTiers) (answers : AttributeValues) :
    (ids.foldl (settle fetched) (t, answers)).1.unstored = t.unstored ∧
      (ids.foldl (settle fetched) (t, answers)).1.epoch = t.epoch := by
  induction ids generalizing t answers with
  | nil => exact ⟨rfl, rfl⟩
  | cons x ids ih =>
    have hstep := settle_same fetched t answers x
    rw [List.foldl_cons]
    generalize settle fetched (t, answers) x = next at hstep
    obtain ⟨t', answers'⟩ := next
    obtain ⟨h1, h2⟩ := ih t' answers'
    exact ⟨h1.trans hstep.1, h2.trans hstep.2⟩

/-- The last phase of a look-up makes only committed values resident. -/
theorem Read.coherent_cacheFetched {g : SegmentAccount} (h : l.Read values e (some g))
    (hc : e.metadata.attributes.Coherent store segment g.attributes) (name : String)
    (maxCached : Nat) :
    (l.cacheFetched e.metadata.attributes store segment name maxCached values).1.Coherent store
      segment g.attributes := by
  unfold cacheFetched
  by_cases he : e.metadata.attributes.epoch = l.epoch
  · simp only [he, ↓reduceIte]
    refine (coherent_foldl_settle h.extended hc (fun x hx _ v hv => ?_) []).trim maxCached
    have hvalue := h.current he g rfl x hx
    rwa [hv] at hvalue
  · simp only [he, ↓reduceIte]
    refine (coherent_foldl_settle h.extended hc (fun x hx hun v hv => ?_) []).trim maxCached
    have hback := hc.backed x (h.extended x hx)
    rw [AttributeStore.lookup_lookup, if_pos hx] at hv
    rw [hun, AttributeStore.value, hv] at hback
    exact hback

/-- Caching what was fetched changes neither what waits nor the epoch. -/
theorem cacheFetched_same (l : AttributeLookup) (t : AttributeTiers) (store : AttributeStore)
    (segment : SegmentId) (name : String) (maxCached : Nat) (values : AttributeValues) :
    (l.cacheFetched t store segment name maxCached values).1.unstored = t.unstored ∧
      (l.cacheFetched t store segment name maxCached values).1.epoch = t.epoch := by
  unfold cacheFetched
  exact foldl_settle_same _ _ _ _

end AttributeLookup

namespace Engine

variable {s : Engine} {a : Account}

/-- The end of a look-up leaves an agreeing engine, whether it makes values resident or not. -/
theorem Agrees.finishLookup (h : s.Agrees a) {id : SegmentId} {lookup : AttributeLookup}
    {values : AttributeValues} {e : Entry} (he : s.entries.get? id = some e)
    (hread : lookup.Read values e (a.segments id)) (cache : Bool) :
    s.Follows a (s.finishLookup id lookup cache values).1 a := by
  unfold Engine.finishLookup
  rw [entry_eq he]
  simp only
  split
  · next hcache =>
    obtain ⟨g, hg, -, -, hd, hcarries⟩ := h.of_readable
      (Or.inl ((congrArg Entry.state (entry_eq he)).trans hcache.2))
    rw [hg] at hread
    have hsame := lookup.cacheFetched_same e.metadata.attributes s.store id e.name
      s.config.maxCachedAttributes values
    have hchanged := ChangedAt.modifyEntry he fun e' => { e' with metadata := { e'.metadata with
      attributes := (lookup.cacheFetched e.metadata.attributes s.store id e.name
        s.config.maxCachedAttributes values).1 } }
    refine h.retiered ⟨he, hchanged, rfl, rfl,
      fun _ => depicts_retiered _, ⟨Nat.le_of_eq hsame.2.symm, fun _ x hx => ?_⟩, fun x hx => ?_,
      fun g' hg' _ hc => ?_, fun hm => ?_, rfl⟩
    · rw [hsame.1, hx]
    · rw [hsame.1, hx]
    · obtain rfl := Option.some.inj (hg.symm.trans hg')
      exact hread.coherent_cacheFetched hc _ _
    · have hnot := hm.symm.trans hcache.2
      cases hnot
  · exact (Alike.refl s).follows h

/-- A store stays tidy when a look-up is finished. -/
theorem Tidy.finishLookup {P : SegmentId → AttributeId → Prop} {earlier : AttributeStore}
    (h : s.Tidy P earlier) {id : SegmentId}
    {e : Entry} (he : s.entries.get? id = some e) (lookup : AttributeLookup) (cache : Bool)
    (values : AttributeValues) : (s.finishLookup id lookup cache values).1.Tidy P earlier := by
  unfold Engine.finishLookup
  simp only
  split
  · refine h.changedAt (.modifyEntry he _) ?_ h.made
    have hsame := (lookup.cacheFetched_same (s.entry id).metadata.attributes s.store id
      (s.entry id).name s.config.maxCachedAttributes values).1
    intro x v hv
    have hv' := (congrArg (Table.get? · x) hsame).symm.trans hv
    rw [entry_eq he] at hv'
    exact h.waits id e he x v hv'
  · exact h

end Engine

end Segments
