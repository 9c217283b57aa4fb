import Segments.Attribute.Store
import Segments.Proofs.Table

/-!
# What attribute stores hold

The laws of the attribute index and of a store over it, in memory or with a log: what each write
does to the stored value of every pair of segment and attribute. A refused write does nothing.
-/

namespace Segments

/-- What an index keeps of a value: the value that stands for none is not kept. -/
def kept (value : AttributeValue) : Option AttributeValue :=
  if value = nullValue then none else some value

@[simp] theorem kept_getD (value : AttributeValue) : (kept value).getD nullValue = value := by
  unfold kept
  split
  · next h => exact h.symm
  · rfl

/-- What is kept is the value that was set. -/
theorem eq_of_kept_eq_some {v w : AttributeValue} (h : kept v = some w) : w = v := by
  unfold kept at h
  split at h
  · cases h
  · exact (Option.some.inj h).symm

namespace AttributeIndex

/-- A value that is set is found, and all others stay. -/
theorem get?_set (index : AttributeIndex) (segment segment' : SegmentId) (id id' : AttributeId)
    (value : AttributeValue) : (index.set segment id value).get? segment' id' =
      if segment' = segment ∧ id' = id then kept value else index.get? segment' id' := by
  unfold set kept get?
  by_cases hv : value = nullValue
  · simp only [hv, ↓reduceIte, Table.get?_erase, Prod.mk.injEq]
  · simp only [hv, ↓reduceIte, Table.get?_insert, Prod.mk.injEq]

/-- Values of different attributes of one segment are all put, and nothing else is touched. -/
theorem get?_put (index : AttributeIndex) (segment segment' : SegmentId) (id : AttributeId)
    {values : AttributeValues} (hd : (values.map Prod.fst).Nodup) :
    (index.put segment values).get? segment' id =
      if segment' = segment then ((values.lookup id).map kept).getD (index.get? segment' id)
      else index.get? segment' id := by
  induction values generalizing index with
  | nil => simp [put]
  | cons v rest ih =>
    obtain ⟨a, x⟩ := v
    obtain ⟨hnot, hrest⟩ := List.nodup_cons.mp hd
    have hput : index.put segment ((a, x) :: rest) = (index.set segment a x).put segment rest := rfl
    rw [hput, ih (index.set segment a x) hrest, get?_set]
    by_cases hs : segment' = segment
    · by_cases ha : id = a
      · subst ha
        have hnone : rest.lookup id = none := by
          rw [List.lookup_eq_none_iff]
          intro e he
          have hne : id ≠ e.1 := fun h => hnot (List.mem_map.mpr ⟨e, he, h.symm⟩)
          simpa using hne
        simp [hs, hnone]
      · have hne : (id == a) = false := by simpa using ha
        simp [hs, ha, List.lookup_cons, hne]
    · simp [hs]

/-- Nothing of a removed segment is found, and all others stay. -/
theorem get?_removeSegment (index : AttributeIndex) (segment segment' : SegmentId)
    (id : AttributeId) : (index.removeSegment segment).get? segment' id =
      if segment' = segment then none else index.get? segment' id := by
  unfold removeSegment get?
  rw [Table.get?_filter]
  by_cases hs : segment' = segment
  · simp [hs]
  · cases index.entries.get? (segment', id) <;> simp [hs]

/-- Nothing is found of a segment that the index does not have. -/
theorem containsSegment_eq_false {index : AttributeIndex} {segment : SegmentId}
    (h : index.containsSegment segment = false) (id : AttributeId) :
    index.get? segment id = none := by
  unfold containsSegment at h
  rw [List.any_eq_false] at h
  cases hget : index.get? segment id with
  | none => rfl
  | some v =>
    have hkey : (segment, id) ∈ index.entries.keys := by
      rw [Table.mem_keys_iff, Table.contains_iff_get?]
      exact ⟨v, hget⟩
    simpa using h _ hkey

end AttributeIndex

namespace IndexLog

/-- The index of a log gets the values that are put. -/
theorem index_put (l : IndexLog) (segment : SegmentId) (values : AttributeValues) :
    (l.put segment values).index = l.index.put segment values := by
  simp only [put, write, List.foldl_map, AttributeIndex.put]
  rfl

/-- The index of a log loses the segment that is removed. -/
theorem get?_removeSegment (l : IndexLog) (segment segment' : SegmentId) (id : AttributeId) :
    (l.removeSegment segment).index.get? segment' id =
      if segment' = segment then none else l.index.get? segment' id := by
  unfold removeSegment
  by_cases hc : l.index.containsSegment segment = true
  · rw [if_pos hc]
    exact AttributeIndex.get?_removeSegment l.index segment segment' id
  · rw [if_neg hc]
    by_cases hs : segment' = segment
    · rw [if_pos hs, hs]
      exact AttributeIndex.containsSegment_eq_false (by simpa using hc) id
    · rw [if_neg hs]

end IndexLog

namespace AttributeStore

/-- The value of an attribute as far as the store knows. -/
def value (s : AttributeStore) (segment : SegmentId) (id : AttributeId) : AttributeValue :=
  (s.get? segment id).getD nullValue

/-- A store that refuses writes takes no values. -/
theorem put_of_refusing {s : AttributeStore} (h : s.refusing = true) (segment : SegmentId)
    (values : AttributeValues) : s.put segment values = (s, .error refusal) := by
  simp [put, h]

/-- A store that takes writes takes all values of a batch. -/
theorem put_of_taking {s : AttributeStore} (h : s.refusing = false) (segment : SegmentId)
    {values : AttributeValues} (hd : (values.map Prod.fst).Nodup) :
    ∃ s', s.put segment values = (s', .ok ()) ∧ s'.refusing = false ∧
      ∀ segment' id, s'.get? segment' id =
        if segment' = segment then ((values.lookup id).map kept).getD (s.get? segment' id)
        else s.get? segment' id := by
  unfold put
  simp only [h, Bool.false_eq_true, ↓reduceIte]
  cases hk : s.keeper with
  | volatile index =>
    refine ⟨_, rfl, rfl, fun segment' id => ?_⟩
    simp only [get?, AttributeStore.index, hk]
    exact AttributeIndex.get?_put index segment segment' id hd
  | logged log =>
    refine ⟨_, rfl, rfl, fun segment' id => ?_⟩
    simp only [get?, AttributeStore.index, hk, IndexLog.index_put]
    exact AttributeIndex.get?_put log.index segment segment' id hd

/-- A store that refuses writes removes no segment. -/
theorem removeSegment_of_refusing {s : AttributeStore} (h : s.refusing = true)
    (segment : SegmentId) : s.removeSegment segment = (s, .error refusal) := by
  simp [removeSegment, h]

/-- A store that takes writes forgets a segment when told to. -/
theorem removeSegment_of_taking {s : AttributeStore} (h : s.refusing = false)
    (segment : SegmentId) :
    ∃ s', s.removeSegment segment = (s', .ok ()) ∧ s'.refusing = false ∧
      ∀ segment' id, s'.get? segment' id =
        if segment' = segment then none else s.get? segment' id := by
  unfold removeSegment
  simp only [h, Bool.false_eq_true, ↓reduceIte]
  cases hk : s.keeper with
  | volatile index =>
    refine ⟨_, rfl, rfl, fun segment' id => ?_⟩
    simp only [get?, AttributeStore.index, hk]
    exact AttributeIndex.get?_removeSegment index segment segment' id
  | logged log =>
    refine ⟨_, rfl, rfl, fun segment' id => ?_⟩
    simp only [get?, AttributeStore.index, hk]
    exact IndexLog.get?_removeSegment log segment segment' id

/-- Whether a store refuses or not, removing a segment leaves the other segments alone. -/
theorem get?_removeSegment_of_ne (s : AttributeStore) {segment segment' : SegmentId}
    (hne : segment' ≠ segment) (id : AttributeId) :
    (s.removeSegment segment).1.get? segment' id = s.get? segment' id := by
  cases hr : s.refusing with
  | true => rw [removeSegment_of_refusing hr]
  | false =>
    obtain ⟨s', hs', -, hget⟩ := removeSegment_of_taking hr segment
    rw [hs', hget, if_neg hne]

end AttributeStore

end Segments
