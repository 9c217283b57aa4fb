import Mathlib.Logic.Function.Basic
import Segments.Attribute.Tiers
import Segments.Proofs.Stores

/-!
# Agreement of the three tiers

`Coherent` says that the tiers of a segment together hold one committed value for each
attribute: what is cached is that value, and below the cache the unstored values and the
attribute store give it. Each move of values between the tiers keeps the agreement.
-/

namespace Segments

namespace AttributeCache

/-- A value that is set is resident unless it is that for none, which removes it. -/
theorem peek_set (c : AttributeCache) (id id' : AttributeId) (value : AttributeValue) :
    (c.set id value).peek id' = if id' = id then kept value else c.peek id' := by
  unfold set remove kept peek
  by_cases hv : value = nullValue
  · by_cases hid : id' = id
    · subst hid
      cases id'.isCore <;> simp [hv, Table.get?_erase]
    · cases id.isCore <;> cases id'.isCore <;> simp [hv, Table.get?_erase, hid]
  · by_cases hid : id' = id
    · subst hid
      cases id'.isCore <;> simp [hv, Table.get?_insert]
    · cases id.isCore <;> cases id'.isCore <;> simp [hv, Table.get?_insert, hid]

/-- Core values are kept apart from extended ones. -/
theorem extended_set_of_core (c : AttributeCache) {id : AttributeId} (h : id.isCore = true)
    (value : AttributeValue) : (c.set id value).extended = c.extended := by
  unfold set remove
  simp only [h, ↓reduceIte]
  split <;> rfl

/-- Marking an attribute as used changes no value. -/
@[simp] theorem peek_touch (c : AttributeCache) (id id' : AttributeId) :
    (c.touch id).peek id' = c.peek id' := by
  unfold touch
  cases hc : id.isCore with
  | true => simp
  | false =>
    cases hc' : id'.isCore with
    | true => simp [peek, hc']
    | false =>
      by_cases hid : id' = id
      · subst hid
        cases h : c.extended.get? id' <;> simp [peek, hc, Table.get?_modify, h]
      · simp [peek, hc', Table.get?_modify, hid]

/-- Touching several attributes changes no value. -/
@[simp] theorem peek_foldl_touch (ids : List AttributeId) (c : AttributeCache)
    (id : AttributeId) : (ids.foldl touch c).peek id = c.peek id := by
  induction ids generalizing c with
  | nil => rfl
  | cons a ids ih => rw [List.foldl_cons, ih, peek_touch]

/-- Marking attributes as used neither adds nor drops any. -/
@[simp] theorem size_foldl_touch (ids : List AttributeId) (c : AttributeCache) :
    (ids.foldl touch c).extended.size = c.extended.size := by
  induction ids generalizing c with
  | nil => rfl
  | cons a ids ih =>
    rw [List.foldl_cons, ih, touch]
    split
    · rfl
    · exact List.length_map _

/-- Trimming drops no core attribute. -/
theorem peek_trim_of_core (c : AttributeCache) (max : Nat) {id : AttributeId}
    (h : id.isCore = true) : (c.trim max).1.peek id = c.peek id := by
  simp [trim, peek, h]

/-- Trimming only drops values. -/
theorem peek_of_peek_trim {c : AttributeCache} {max : Nat} {id : AttributeId}
    {v : AttributeValue} (h : (c.trim max).1.peek id = some v) : c.peek id = some v := by
  unfold trim peek at h
  unfold peek
  cases hc : id.isCore with
  | true => simpa [hc] using h
  | false =>
    simp only [hc, Bool.false_eq_true, ↓reduceIte, Table.get?_filter, Option.map_eq_some_iff,
      Option.filter_eq_some_iff] at h ⊢
    obtain ⟨e, ⟨he, -⟩, hv⟩ := h
    exact ⟨e, he, hv⟩

/-- Clearing drops the extended attributes. -/
theorem peek_clearExtended (c : AttributeCache) (id : AttributeId) :
    c.clearExtended.peek id = if id.isCore then c.peek id else none := by
  unfold clearExtended peek
  cases hc : id.isCore <;> simp

/-- A cleared cache has nothing. -/
@[simp] theorem peek_clear (c : AttributeCache) (id : AttributeId) : c.clear.peek id = none := by
  unfold clear peek
  cases hc : id.isCore <;> simp

theorem peek_empty (id : AttributeId) : empty.peek id = none := by
  unfold empty peek
  cases hc : id.isCore <;> simp

/-- A value that is put in where nothing is resident is then resident, unless it is none. -/
theorem peek_insertIfAbsent (c : AttributeCache) {id : AttributeId} (h : c.peek id = none)
    (value : AttributeValue) (id' : AttributeId) :
    (c.insertIfAbsent id value).1.peek id' = if id' = id then kept value else c.peek id' := by
  unfold insertIfAbsent contains
  by_cases hv : value = nullValue
  · by_cases hid : id' = id <;> simp [hv, hid, h, kept]
  · simp only [hv, h, Option.isSome_none, Bool.false_eq_true, or_self, ↓reduceIte]
    exact peek_set c id id' value

end AttributeCache

/-- The values after some of them were set, one after another. -/
def overlaid (committed : AttributeId → AttributeValue) (values : AttributeValues) :
    AttributeId → AttributeValue :=
  values.foldl (fun c v => Function.update c v.1 v.2) committed

/-- Every attribute has the value that stands for none. -/
def noValues : AttributeId → AttributeValue := fun _ => nullValue

/-- The values that a store has of a segment; core values are never looked for there. -/
def AttributeStore.valuesOf (s : AttributeStore) (segment : SegmentId) :
    AttributeId → AttributeValue :=
  fun id => if id.isCore then nullValue else s.value segment id

/-- What a store has of a segment is read off its look-ups. -/
theorem AttributeStore.valuesOf_congr {s s' : AttributeStore} {segment : SegmentId}
    (h : ∀ id, s'.get? segment id = s.get? segment id) :
    s'.valuesOf segment = s.valuesOf segment := by
  funext id
  rw [valuesOf, valuesOf, value, value, h]

/-- Of a segment for which nothing is stored there are no values. -/
theorem AttributeStore.valuesOf_eq_noValues {s : AttributeStore} {segment : SegmentId}
    (h : ∀ id, s.get? segment id = none) : s.valuesOf segment = noValues := by
  funext id
  simp [valuesOf, value, h, noValues]

namespace AttributeTiers

/-- The tiers of a segment agree on one committed value for each attribute. -/
structure Coherent (t : AttributeTiers) (store : AttributeStore) (segment : SegmentId)
    (committed : AttributeId → AttributeValue) : Prop where
  /-- Core values are in the cache, and no others. -/
  core : ∀ id, id.isCore = true → t.cache.peek id = kept (committed id)
  /-- A cached extended value is the committed one. -/
  cached : ∀ id v, id.isCore = false → t.cache.peek id = some v → v = committed id
  /-- Below the cache an extended value is unstored or stored. -/
  backed : ∀ id, id.isCore = false →
    (t.unstored.get? id).getD (store.value segment id) = committed id
  /-- No core value waits for the store. -/
  unstored_core : ∀ id, id.isCore = true → t.unstored.get? id = none

variable {t : AttributeTiers} {store : AttributeStore} {segment : SegmentId}
  {committed : AttributeId → AttributeValue}

/-- What memory knows of an extended attribute is its committed value. -/
theorem Coherent.resident (h : t.Coherent store segment committed) {id : AttributeId}
    {v : AttributeValue} (hv : t.resident? id = some v) : v = committed id := by
  unfold resident? at hv
  cases hc : id.isCore with
  | true =>
    rw [h.unstored_core id hc, Option.or_none, h.core id hc] at hv
    exact eq_of_kept_eq_some hv
  | false =>
    rcases Option.or_eq_some_iff.mp hv with hp | ⟨-, hu⟩
    · exact h.cached id v hc hp
    · rw [← h.backed id hc, hu, Option.getD_some]

/-- The value over all tiers is the committed one. -/
theorem Coherent.value_eq (h : t.Coherent store segment committed) (id : AttributeId) :
    t.value store segment id = committed id := by
  unfold value
  cases hr : t.resident? id with
  | some v => exact h.resident hr
  | none =>
    obtain ⟨hpeek, hun⟩ := Option.or_eq_none_iff.mp hr
    cases hc : id.isCore with
    | true =>
      rw [h.core id hc] at hpeek
      rw [← kept_getD (committed id), hpeek]
      rfl
    | false =>
      rw [← h.backed id hc, hun]
      rfl

/-- Agreement depends on the store only through the extended values of the segment. -/
theorem Coherent.congr_store (h : t.Coherent store segment committed) {store' : AttributeStore}
    (he : ∀ id, id.isCore = false → store'.value segment id = store.value segment id) :
    t.Coherent store' segment committed :=
  ⟨h.core, h.cached, fun id hc => by rw [he id hc, h.backed id hc], h.unstored_core⟩

/-- Agreement depends on the cache only through its resident values. -/
theorem Coherent.of_cache (h : t.Coherent store segment committed) {t' : AttributeTiers}
    (hun : t'.unstored = t.unstored)
    (hcore : ∀ id, id.isCore = true → t'.cache.peek id = t.cache.peek id)
    (hext : ∀ id v, id.isCore = false → t'.cache.peek id = some v →
      t.cache.peek id = some v ∨ v = committed id) :
    t'.Coherent store segment committed where
  core id hc := by rw [hcore id hc, h.core id hc]
  cached id v hc hv := (hext id v hc hv).elim (h.cached id v hc) fun he => he
  backed id hc := by rw [hun, h.backed id hc]
  unstored_core id hc := by rw [hun, h.unstored_core id hc]

/-- Trimming keeps the tiers coherent. -/
theorem Coherent.trim (h : t.Coherent store segment committed) (max : Nat) :
    (t.trim max).1.Coherent store segment committed :=
  h.of_cache rfl (fun _ hc => AttributeCache.peek_trim_of_core t.cache max hc)
    (fun _ _ _ hv => Or.inl (AttributeCache.peek_of_peek_trim hv))

/-- An eviction keeps the tiers coherent. -/
theorem Coherent.evict (h : t.Coherent store segment committed) :
    t.evict.1.Coherent store segment committed := by
  refine h.of_cache rfl (fun id hc => ?_) (fun id v hc hv => ?_)
  · simp [AttributeTiers.evict, AttributeCache.peek_clearExtended, hc]
  · simp [AttributeTiers.evict, AttributeCache.peek_clearExtended, hc] at hv

/-- A committed value that memory takes in is then the one agreed on. -/
theorem Coherent.record (h : t.Coherent store segment committed)
    (v : AttributeId × AttributeValue) :
    (t.record v).Coherent store segment (Function.update committed v.1 v.2) := by
  obtain ⟨a, x⟩ := v
  have hun : ∀ id, (t.record (a, x)).unstored.get? id =
      if a.isCore = false ∧ id = a then some x else t.unstored.get? id := by
    intro id
    cases ha : a.isCore <;> simp [AttributeTiers.record, AttributeId.isExtended, ha,
      Table.get?_insert]
  have hpeek : ∀ id, (t.record (a, x)).cache.peek id =
      if id = a then kept x else t.cache.peek id := fun id => AttributeCache.peek_set _ _ _ _
  refine ⟨fun id hc => ?_, fun id v hc hv => ?_, fun id hc => ?_, fun id hc => ?_⟩
  · rw [hpeek, Function.update_apply]
    by_cases hid : id = a
    · rw [if_pos hid, if_pos hid]
    · rw [if_neg hid, if_neg hid, h.core id hc]
  · rw [hpeek] at hv
    rw [Function.update_apply]
    by_cases hid : id = a
    · rw [if_pos hid] at hv ⊢
      exact eq_of_kept_eq_some hv
    · rw [if_neg hid] at hv ⊢
      exact h.cached id v hc hv
  · rw [hun, Function.update_apply]
    by_cases hid : id = a
    · subst hid
      simp [hc]
    · simp only [hid, and_false, ↓reduceIte, h.backed id hc]
  · rw [hun, if_neg, h.unstored_core id hc]
    rintro ⟨ha, rfl⟩
    rw [hc] at ha
    cases ha

/-- Values that are recorded one after another are committed. -/
theorem Coherent.foldl_record (values : AttributeValues) {t : AttributeTiers}
    {committed : AttributeId → AttributeValue} (h : t.Coherent store segment committed) :
    (values.foldl AttributeTiers.record t).Coherent store segment (overlaid committed values) := by
  induction values generalizing t committed with
  | nil => exact h
  | cons v values ih => exact ih (h.record v)

/-- Recorded values are committed, and counted as one change. -/
theorem Coherent.recordAll (h : t.Coherent store segment committed) (values : AttributeValues) :
    (t.recordAll values).Coherent store segment (overlaid committed values) := by
  have hr := h.foldl_record values
  unfold AttributeTiers.recordAll
  simp only
  split
  · exact hr.of_cache rfl (fun _ _ => rfl) (fun _ _ _ hv => Or.inl hv)
  · exact hr

/-- Writing through moves values from the middle tier to the store, or does nothing. -/
theorem writeThrough_cases (t : AttributeTiers) (store : AttributeStore) (segment : SegmentId)
    (name : String) :
    ((t.writeThrough store segment name).1 = t ∧ (t.writeThrough store segment name).2.1 = store) ∨
    ((t.writeThrough store segment name).1 = { t with unstored := .empty } ∧
      (t.writeThrough store segment name).2.1.refusing = store.refusing ∧
      ∀ segment' id, (t.writeThrough store segment name).2.1.get? segment' id =
        if segment' = segment then ((t.unstored.get? id).map kept).getD (store.get? segment' id)
        else store.get? segment' id) := by
  unfold writeThrough
  by_cases he : t.unstored.isEmpty = true
  · simp [he]
  · rw [if_neg he]
    cases hr : store.refusing with
    | true =>
      rw [AttributeStore.put_of_refusing hr]
      exact Or.inl ⟨rfl, rfl⟩
    | false =>
      obtain ⟨store', hput, hr', hget⟩ := AttributeStore.put_of_taking hr segment t.unstored.nodup
      rw [hput]
      exact Or.inr ⟨rfl, hr', hget⟩

/-- Writing values through keeps the tiers coherent with the new store. -/
theorem Coherent.writeThrough (h : t.Coherent store segment committed) (name : String) :
    (t.writeThrough store segment name).1.Coherent
      (t.writeThrough store segment name).2.1 segment committed := by
  rcases writeThrough_cases t store segment name with ⟨ht, hs⟩ | ⟨ht, -, hget⟩
  · rw [ht, hs]
    exact h
  · rw [ht]
    refine ⟨h.core, h.cached, fun id hc => ?_, fun id _ => Table.get?_empty id⟩
    rw [← h.backed id hc]
    simp only [AttributeStore.value, hget, ↓reduceIte]
    cases t.unstored.get? id <;> simp

/-- Writing through leaves other segments alone. -/
theorem writeThrough_get?_of_ne (t : AttributeTiers) (store : AttributeStore)
    {segment segment' : SegmentId} (hne : segment' ≠ segment) (name : String) (id : AttributeId) :
    (t.writeThrough store segment name).2.1.get? segment' id = store.get? segment' id := by
  rcases writeThrough_cases t store segment name with ⟨-, hs⟩ | ⟨-, -, hget⟩
  · rw [hs]
  · rw [hget, if_neg hne]

/-- Applying values commits them. -/
theorem Coherent.apply (h : t.Coherent store segment committed) (name : String)
    (maxCached : Nat) (values : AttributeValues) :
    (t.apply store segment name maxCached values).1.Coherent
      (t.apply store segment name maxCached values).2.1 segment (overlaid committed values) :=
  ((h.recordAll values).writeThrough name).trim maxCached

/-- Applying values leaves the stored values of other segments alone. -/
theorem apply_get?_of_ne (t : AttributeTiers) (store : AttributeStore)
    {segment segment' : SegmentId} (hne : segment' ≠ segment) (name : String) (maxCached : Nat)
    (values : AttributeValues) (id : AttributeId) :
    (t.apply store segment name maxCached values).2.1.get? segment' id = store.get? segment' id :=
  writeThrough_get?_of_ne _ store hne name id

/-- How tiers go on: while no change of extended attributes is counted, what was stored stays
stored. -/
structure Precedes (t t' : AttributeTiers) : Prop where
  /-- The count only rises. -/
  epoch : t.epoch ≤ t'.epoch
  /-- Without a change no value comes to wait for the store. -/
  unstored : t'.epoch = t.epoch → ∀ id, t.unstored.get? id = none → t'.unstored.get? id = none

theorem Precedes.refl (t : AttributeTiers) : t.Precedes t := ⟨Nat.le_refl _, fun _ _ h => h⟩

theorem Precedes.trans {t t' t'' : AttributeTiers} (h : t.Precedes t') (h' : t'.Precedes t'') :
    t.Precedes t'' := by
  refine ⟨Nat.le_trans h.epoch h'.epoch, fun he id hid => ?_⟩
  have h1 := h.epoch
  have h2 := h'.epoch
  exact h'.unstored (by omega) id (h.unstored (by omega) id hid)

/-- A write-through counts no change, and afterwards no more values wait for the store. -/
theorem precedes_writeThrough (t : AttributeTiers) (store : AttributeStore) (segment : SegmentId)
    (name : String) : t.Precedes (t.writeThrough store segment name).1 := by
  rcases writeThrough_cases t store segment name with ⟨ht, -⟩ | ⟨ht, -, -⟩
  · rw [ht]
    exact .refl t
  · rw [ht]
    exact ⟨Nat.le_refl _, fun _ id _ => Table.get?_empty id⟩

/-- A write-through counts no change. -/
theorem epoch_writeThrough (t : AttributeTiers) (store : AttributeStore) (segment : SegmentId)
    (name : String) : (t.writeThrough store segment name).1.epoch = t.epoch := by
  rcases writeThrough_cases t store segment name with ⟨ht, -⟩ | ⟨ht, -, -⟩ <;> rw [ht]

@[simp] theorem epoch_foldl_record (t : AttributeTiers) (values : AttributeValues) :
    (values.foldl record t).epoch = t.epoch := by
  induction values generalizing t with
  | nil => rfl
  | cons v values ih => exact ih (t.record v)

/-- Only core values change nothing that the store is concerned with. -/
theorem unstored_foldl_record {values : AttributeValues}
    (h : ∀ v ∈ values, v.1.isExtended = false) (t : AttributeTiers) :
    (values.foldl record t).unstored = t.unstored := by
  induction values generalizing t with
  | nil => rfl
  | cons v values ih =>
    rw [List.foldl_cons, ih (fun w hw => h w (List.mem_cons_of_mem _ hw))]
    simp [record, h v List.mem_cons_self]

/-- An epoch that has not changed tells that only core values were applied. -/
theorem isExtended_of_epoch_recordAll {values : AttributeValues}
    (he : (t.recordAll values).epoch = t.epoch) : ∀ v ∈ values, v.1.isExtended = false := by
  unfold recordAll at he
  by_cases hany : (values.any fun v => v.1.isExtended) = true
  · simp [hany] at he
  · simpa using hany

/-- Applying values counts as recording them does. -/
theorem epoch_apply (t : AttributeTiers) (store : AttributeStore) (segment : SegmentId)
    (name : String) (maxCached : Nat) (values : AttributeValues) :
    (t.apply store segment name maxCached values).1.epoch = (t.recordAll values).epoch :=
  epoch_writeThrough _ store segment name

/-- Recording extended values is counted as a change. -/
theorem precedes_recordAll (t : AttributeTiers) (values : AttributeValues) :
    t.Precedes (t.recordAll values) := by
  refine ⟨?_, fun he id hid => ?_⟩
  · unfold recordAll
    simp only
    split <;> simp
  · have hall := isExtended_of_epoch_recordAll he
    unfold recordAll
    simp only
    split <;> simpa [unstored_foldl_record hall] using hid

/-- So is applying them. -/
theorem precedes_apply (t : AttributeTiers) (store : AttributeStore) (segment : SegmentId)
    (name : String) (maxCached : Nat) (values : AttributeValues) :
    t.Precedes (t.apply store segment name maxCached values).1 := by
  have hwrite := precedes_writeThrough (t.recordAll values) store segment name
  exact (precedes_recordAll t values).trans ⟨hwrite.epoch, hwrite.unstored⟩

/-- Only core values leave the extended ones as they were. -/
theorem overlaid_of_core {values : AttributeValues} (h : ∀ v ∈ values, v.1.isExtended = false)
    (committed : AttributeId → AttributeValue) {id : AttributeId} (hc : id.isCore = false) :
    overlaid committed values id = committed id := by
  induction values generalizing committed with
  | nil => rfl
  | cons v values ih =>
    have hv : id ≠ v.1 := by
      rintro rfl
      have := h v List.mem_cons_self
      simp [AttributeId.isExtended, hc] at this
    have hover : overlaid committed (v :: values) =
        overlaid (Function.update committed v.1 v.2) values := rfl
    rw [hover, ih (fun w hw => h w (List.mem_cons_of_mem _ hw)), Function.update_of_ne hv]

/-- A segment of which memory has nothing has the values that are stored. -/
theorem coherent_valuesOf (store : AttributeStore) (segment : SegmentId) :
    empty.Coherent store segment (store.valuesOf segment) where
  core id hc := by simp [empty, AttributeCache.peek_empty, AttributeStore.valuesOf, hc, kept]
  cached id v _ hv := by simp [empty, AttributeCache.peek_empty] at hv
  backed id hc := by simp [empty, AttributeStore.valuesOf, hc]
  unstored_core id _ := Table.get?_empty id

end AttributeTiers

end Segments
