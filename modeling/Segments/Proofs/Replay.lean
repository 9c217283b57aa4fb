import Segments.Engine.Replay
import Segments.Proofs.Depiction

/-!
# Replay agrees with the account

Replay takes in every record that can come next, and what it has then is what the account of the
records says. The extended values collected on the way stand in for the attribute store.
-/

namespace Segments

/-- The attributes whose values a record commits, each with its segment. -/
def Record.named : Record → List (SegmentId × AttributeId)
  | .create id _ values | .append id _ _ values | .updateAttributes id values =>
    values.map fun v => (id, v.1)
  | _ => []

namespace Replayed

/-- The collected values as a store. -/
def shadow (r : Replayed) : AttributeStore := .ofIndex ⟨r.extended⟩

/-- Nothing extended is in the memory of an entry. -/
structure Plain (e : Entry) : Prop where
  /-- No extended value is cached. -/
  extended : e.metadata.attributes.cache.extended = .empty
  /-- No value waits for the store. -/
  unstored : ∀ x, e.metadata.attributes.unstored.get? x = none

/-- No extended attribute is in the cache. -/
theorem Plain.uncached {e : Entry} (h : Plain e) (x : AttributeId) (hx : x.isCore = false) :
    e.metadata.attributes.cache.peek x = none := by
  simp [AttributeCache.peek, hx, h.extended]

/-- What was replayed is what an account says of records that commit the values of some
attributes. -/
structure Agrees (r : Replayed) (a : Account) (keys : List (SegmentId × AttributeId)) : Prop where
  /-- Each segment is as the account says. -/
  segment : ∀ id, Entry.Shows r.shadow id (r.entries.get? id) (a.segments id)
  /-- So are the names. -/
  names : ∀ n, r.names.get? n = a.names n
  /-- So is the number of the next segment. -/
  nextId : r.nextId = a.nextId
  /-- Extended values are only collected. -/
  plain : ∀ id e, r.entries.get? id = some e → Plain e
  /-- Numbers are given out in order. -/
  numbered : ∀ id e, r.entries.get? id = some e → id < r.nextId
  /-- None is left out. -/
  counted : r.nextId ≤ r.entries.size + 1
  /-- Collected are extended values of segments that are there and were not released. -/
  collected : ∀ id x v, r.extended.get? (id, x) = some v →
    x.isCore = false ∧ id ∉ r.released ∧ ∃ g, a.segments id = some g ∧ g.state ≠ .merged
  /-- A released segment was merged away or deleted. -/
  released : ∀ id ∈ r.released, (∃ e, r.entries.get? id = some e) ∧
    ∀ g, a.segments id = some g → g.state = .merged
  /-- A value that some record commits was collected, unless its segment was released. -/
  covered : ∀ k ∈ keys, k.1 ∈ r.released ∨
    ∃ g, a.segments k.1 = some g ∧ g.state ≠ .merged ∧
      (k.2.isCore = false → ∃ v, r.extended.get? k = some v)
  /-- The account is that over an empty attribute store. -/
  found : ∀ id, a.found id = noValues

/-- A sum that counts things in memory is exact. -/
theorem sum_of_le {held a b : Nat} (h : a + b ≤ held) : sum held a b = a + b :=
  Nat.mod_eq_of_lt (by omega)

/-- As many are there as were added up exactly if none of what was added is missing. -/
theorem sum_eq_iff {a b k : Nat} (h : k ≤ b) : sum (a + k) a b = a + k ↔ k = b := by
  constructor
  · intro hsum
    unfold sum at hsum
    -- a sum that went past the last number is less than what was added to
    by_contra hne
    have hle := Nat.mod_add_div (a + b) (max (Bytes.capacity 8) (max (a + k) (max a b) + 1))
    rw [hsum] at hle
    have hpos : (a + b) / max (Bytes.capacity 8) (max (a + k) (max a b) + 1) ≠ 0 := by
      intro hzero
      rw [hzero] at hle
      omega
    have hmul := Nat.le_mul_of_pos_right (max (Bytes.capacity 8) (max (a + k) (max a b) + 1))
      (Nat.pos_of_ne_zero hpos)
    omega
  · rintro rfl
    exact sum_of_le (Nat.le_refl _)

/-- An entry that is as an account says stays so when it grows. -/
theorem depicts_grown {e : Entry} {g : SegmentAccount} (hd : e.Depicts g)
    (hg : g.data.length = g.length) (data : Bytes) :
    (grown e data data.length).Depicts (g.grown data) := by
  refine ⟨hd.name, hd.state, hd.mergedInto, ?_, hd.truncationOffset,
    congrArg (· ++ data) hd.data⟩
  have hthere : e.metadata.length + data.length = (e.data ++ data).length := by
    rw [List.length_append, hd.data, hg, hd.length]
  exact (sum_of_le (Nat.le_of_eq hthere)).trans (congrArg (· + data.length) hd.length)

/-- The shadow has the last value collected, or none. -/
theorem shadow_value (r : Replayed) (id : SegmentId) (x : AttributeId) :
    r.shadow.value id x = (r.extended.get? (id, x)).getD nullValue := rfl

/-- Nothing is replayed of no records. -/
theorem agrees_start : start.Agrees .start [] where
  segment _ := .absent
  names _ := rfl
  nextId := rfl
  plain _ _ he := by cases he
  numbered _ _ he := by cases he
  counted := Nat.le_refl 1
  collected := nofun
  released := nofun
  covered := nofun
  found _ := rfl

/-- Collecting values one after another. -/
theorem collect_cons (extended : Table (SegmentId × AttributeId) AttributeValue) (id : SegmentId)
    (v : AttributeId × AttributeValue) (values : AttributeValues) :
    collect extended id (v :: values) =
      collect (if v.1.isCore then extended else extended.insert (id, v.1) v.2) id values := by
  unfold collect
  cases hv : v.1.isCore <;> simp [AttributeId.isExtended, hv]

/-- Exactly the extended ones among the values are collected, in addition to what was. -/
theorem exists_get?_collect (extended : Table (SegmentId × AttributeId) AttributeValue)
    (id j : SegmentId) (values : AttributeValues) (x : AttributeId) :
    (∃ v, (collect extended id values).get? (j, x) = some v) ↔
      (∃ v, extended.get? (j, x) = some v) ∨
        (j = id ∧ x.isCore = false ∧ x ∈ values.map Prod.fst) := by
  induction values generalizing extended with
  | nil => simp [collect]
  | cons v values ih =>
    rw [collect_cons, ih]
    cases hv : v.1.isCore with
    | true =>
      have hne : x.isCore = false → x ≠ v.1 := by
        rintro hx rfl
        rw [hx] at hv
        cases hv
      simp only [↓reduceIte, List.map_cons, List.mem_cons]
      constructor
      · rintro (h | ⟨hj, hx, hm⟩)
        · exact Or.inl h
        · exact Or.inr ⟨hj, hx, Or.inr hm⟩
      · rintro (h | ⟨hj, hx, he | hm⟩)
        · exact Or.inl h
        · exact absurd he (hne hx)
        · exact Or.inr ⟨hj, hx, hm⟩
    | false =>
      simp only [Bool.false_eq_true, ↓reduceIte, Table.get?_insert, Prod.mk.injEq, List.map_cons,
        List.mem_cons]
      by_cases hk : j = id ∧ x = v.1
      · obtain ⟨rfl, rfl⟩ := hk
        simp [hv]
      · simp only [hk, ↓reduceIte]
        constructor
        · rintro (h | ⟨hj, hx, hm⟩)
          · exact Or.inl h
          · exact Or.inr ⟨hj, hx, Or.inr hm⟩
        · rintro (h | ⟨hj, hx, he | hm⟩)
          · exact Or.inl h
          · exact absurd ⟨hj, he⟩ hk
          · exact Or.inr ⟨hj, hx, hm⟩

/-- Collected values of one segment leave those of others. -/
theorem get?_collect_of_ne (extended : Table (SegmentId × AttributeId) AttributeValue)
    {id j : SegmentId} (hj : j ≠ id) (values : AttributeValues) (x : AttributeId) :
    (collect extended id values).get? (j, x) = extended.get? (j, x) := by
  induction values generalizing extended with
  | nil => rfl
  | cons v values ih =>
    rw [collect_cons, ih]
    cases v.1.isCore <;> simp [Table.get?_insert, hj]

/-- Taking in values one after another. -/
theorem withCore_cons (m : Metadata) (v : AttributeId × AttributeValue)
    (values : AttributeValues) :
    withCore m (v :: values) = withCore (if v.1.isCore then
      { m with attributes := { m.attributes with cache := m.attributes.cache.set v.1 v.2 } }
      else m) values := by
  unfold withCore
  cases hv : v.1.isCore <;> simp [hv]

/-- Core values go to the cache and extended ones are collected: together they are the committed
values. -/
theorem coherent_withCore {m : Metadata}
    {extended : Table (SegmentId × AttributeId) AttributeValue} {id : SegmentId}
    {committed : AttributeId → AttributeValue} (hp : Plain (.ofMetadata m))
    (h : m.attributes.Coherent (.ofIndex ⟨extended⟩) id committed) (values : AttributeValues) :
    Plain (.ofMetadata (withCore m values)) ∧
      (withCore m values).attributes.Coherent (.ofIndex ⟨collect extended id values⟩) id
        (overlaid committed values) := by
  induction values generalizing m extended committed with
  | nil => exact ⟨hp, h⟩
  | cons v values ih =>
    rw [withCore_cons, collect_cons]
    have hover : overlaid committed (v :: values) =
        overlaid (Function.update committed v.1 v.2) values := rfl
    rw [hover]
    cases hv : v.1.isCore with
    | true =>
      have hne : ∀ x : AttributeId, x.isCore = false → x ≠ v.1 := by
        rintro x hx rfl
        rw [hx] at hv
        cases hv
      have huncached : ∀ x, x.isCore = false →
          (m.attributes.cache.set v.1 v.2).peek x = none := by
        intro x hx
        rw [AttributeCache.peek_set, if_neg (hne x hx)]
        exact hp.uncached x hx
      refine ih ⟨(AttributeCache.extended_set_of_core _ hv _).trans hp.extended, hp.unstored⟩
        ⟨fun x hx => ?_, fun x w hx hw => ?_, fun x hx => ?_,
        h.unstored_core⟩
      · rw [if_pos rfl, AttributeCache.peek_set, Function.update_apply]
        by_cases he : x = v.1
        · rw [if_pos he, if_pos he]
        · rw [if_neg he, if_neg he, h.core x hx]
      · rw [if_pos rfl] at hw
        simp only [huncached x hx] at hw
        cases hw
      · rw [Function.update_apply, if_neg (hne x hx)]
        exact h.backed x hx
    | false =>
      have hne : ∀ x : AttributeId, x.isCore = true → x ≠ v.1 := by
        rintro x hx rfl
        rw [hx] at hv
        cases hv
      refine ih hp ⟨fun x hx => ?_, fun x w hx hw => ?_, fun x hx => ?_, h.unstored_core⟩
      · rw [Function.update_apply, if_neg (hne x hx)]
        exact h.core x hx
      · have hnone := hp.uncached x hx
        simp only [Entry.ofMetadata] at hnone
        simp [hnone] at hw
      · have hun := hp.unstored x
        simp only [Entry.ofMetadata] at hun
        have hback := h.backed x hx
        simp only [Bool.false_eq_true, ↓reduceIte, hun, Option.getD_none] at hback ⊢
        simp only [AttributeStore.value, AttributeStore.get?, AttributeStore.index,
          AttributeStore.ofIndex, AttributeIndex.get?, Table.get?_insert, Prod.mk.injEq, true_and,
          Function.update_apply] at hback ⊢
        by_cases he : x = v.1
        · simp [he]
        · simpa [he] using hback

/-- An entry that was not deleted is found. -/
theorem entry_eq_ok {r : Replayed} {id : SegmentId} {e : Entry}
    (he : r.entries.get? id = some e) (hlive : e.metadata.state ≠ .deleted) :
    r.entry id = .ok e := by
  simp only [entry, he, Entry.state, hlive, ↓reduceIte]

/-- An entry is found exactly if it is there and was not deleted. -/
theorem entry_eq_ok_iff {r : Replayed} {id : SegmentId} {e : Entry} :
    r.entry id = .ok e ↔ r.entries.get? id = some e ∧ e.metadata.state ≠ .deleted := by
  refine ⟨fun h => ?_, fun h => entry_eq_ok h.1 h.2⟩
  unfold entry at h
  split at h
  · next c hc =>
    split at h
    · cases h
    · next hlive => exact Except.ok.inj h ▸ ⟨hc, hlive⟩
  · cases h

variable {r : Replayed} {a : Account} {keys : List (SegmentId × AttributeId)}

/-- A segment with an account has a replayed entry. -/
theorem Agrees.entry (h : r.Agrees a keys) (hw : a.WellFormed) {id : SegmentId}
    {g : SegmentAccount} (hg : a.segments id = some g) :
    ∃ e, r.entry id = .ok e ∧ r.entries.get? id = some e ∧ e.metadata.id = id ∧ e.Depicts g ∧
      e.Carries r.shadow id g := by
  obtain ⟨e, he, hown, hd, hc⟩ := (hg ▸ h.segment id).of_account
  refine ⟨e, entry_eq_ok he ?_, he, hown, hd, hc⟩
  rw [hd.state]
  exact (hw.segment id g hg).state_ne_deleted

/-- A segment that was neither merged away nor deleted takes in a change of its fields and then
attribute values. -/
theorem Agrees.withEntry (h : r.Agrees a keys) {a' : Account} {e : Entry} {g : SegmentAccount}
    {values : AttributeValues} (names : Table String SegmentId) (nextId : SegmentId)
    (hplain : Plain e) (hd : e.Depicts g) (hstate : g.state ≠ .merged)
    (hc : e.metadata.attributes.Coherent r.shadow e.metadata.id g.attributes)
    (hreleased : e.metadata.id ∉ r.released)
    (hsegments : a'.segments =
      Function.update a.segments e.metadata.id (some (g.taking values)))
    (hnames : ∀ n, names.get? n = a'.names n) (hnext : nextId = a'.nextId)
    (hid : e.metadata.id < nextId) (hle : r.nextId ≤ nextId)
    (hcounted : nextId ≤ (r.withEntry e values).entries.size + 1) (hfound : a'.found = a.found) :
    ({ r.withEntry e values with names, nextId }).Agrees a'
      (keys ++ values.map fun v : AttributeId × AttributeValue => (e.metadata.id, v.1)) := by
  obtain ⟨hplain', hc'⟩ := coherent_withCore (m := e.metadata) ⟨hplain.extended, hplain.unstored⟩
    hc values
  have hget : ∀ j, (r.withEntry e values).entries.get? j = if j = e.metadata.id
      then some { e with metadata := withCore e.metadata values } else r.entries.get? j :=
    fun j => Table.get?_insert _ _ _ _
  have hext := exists_get?_collect r.extended e.metadata.id
  refine ⟨fun j => ?_, hnames, hnext, fun j e' he' => ?_, fun j e' he' => ?_, hcounted,
    fun j x v hv => ?_, fun j hj => ?_, fun k hk => ?_, fun j => hfound ▸ h.found j⟩
  · change Entry.Shows _ j ((r.withEntry e values).entries.get? j) _
    rw [hget, hsegments, Function.update_apply]
    by_cases hj : j = e.metadata.id
    · rw [if_pos hj, if_pos hj, hj]
      exact .present rfl ⟨hd.name, hd.state, hd.mergedInto, hd.length, hd.truncationOffset, hd.data⟩
        ⟨fun _ => hc', fun hm => absurd hm hstate⟩
    · rw [if_neg hj, if_neg hj]
      refine (h.segment j).congr_store fun _ _ _ x _ => ?_
      exact congrArg (Option.getD · nullValue) (get?_collect_of_ne r.extended hj values x)
  · change (r.withEntry e values).entries.get? j = some e' at he'
    rw [hget] at he'
    by_cases hj : j = e.metadata.id
    · rw [if_pos hj, Option.some.injEq] at he'
      exact he' ▸ ⟨hplain'.extended, hplain'.unstored⟩
    · rw [if_neg hj] at he'
      exact h.plain j e' he'
  · change (r.withEntry e values).entries.get? j = some e' at he'
    rw [hget] at he'
    by_cases hj : j = e.metadata.id
    · exact hj ▸ hid
    · rw [if_neg hj] at he'
      exact Nat.lt_of_lt_of_le (h.numbered j e' he') hle
  · have hthere : ∀ j g', a.segments j = some g' → g'.state ≠ .merged →
        ∃ g'', a'.segments j = some g'' ∧ g''.state ≠ .merged := by
      intro j g' hg' hs'
      rw [hsegments]
      by_cases hj : j = e.metadata.id
      · rw [hj, Function.update_self]
        exact ⟨g.taking values, rfl, hstate⟩
      · rw [Function.update_of_ne hj]
        exact ⟨g', hg', hs'⟩
    rcases (hext j values x).mp ⟨v, hv⟩ with ⟨w, hw⟩ | ⟨hj, hx, -⟩
    · obtain ⟨hx, hr, g', hg', hs'⟩ := h.collected j x w hw
      exact ⟨hx, hr, hthere j g' hg' hs'⟩
    · rw [hj, hsegments, Function.update_self]
      exact ⟨hx, hreleased, g.taking values, rfl, hstate⟩
  · obtain ⟨⟨e', he'⟩, hmerged⟩ := h.released j hj
    have hne : j ≠ e.metadata.id := fun hje => hreleased (hje ▸ hj)
    refine ⟨⟨e', ?_⟩, fun g' hg' => hmerged g' ?_⟩
    · change (r.withEntry e values).entries.get? j = some e'
      rw [hget, if_neg hne, he']
    · rwa [hsegments, Function.update_of_ne hne] at hg'
  · have htaken : a'.segments e.metadata.id = some (g.taking values) := by
      rw [hsegments, Function.update_self]
    rcases List.mem_append.mp hk with hk | hk
    · rcases h.covered k hk with hr | ⟨g', hg', hs', hcol⟩
      · exact Or.inl hr
      · by_cases hj : k.1 = e.metadata.id
        · refine Or.inr ⟨g.taking values, hj ▸ htaken, hstate, fun hx => ?_⟩
          exact (hext k.1 values k.2).mpr (Or.inl (hcol hx))
        · refine Or.inr ⟨g', by rw [hsegments, Function.update_of_ne hj, hg'], hs', fun hx => ?_⟩
          exact (hext k.1 values k.2).mpr (Or.inl (hcol hx))
    · obtain ⟨v, hv, rfl⟩ := List.mem_map.mp hk
      refine Or.inr ⟨g.taking values, htaken, hstate, fun hx => ?_⟩
      exact (hext _ values v.1).mpr (Or.inr ⟨rfl, hx, List.mem_map.mpr ⟨v, hv, rfl⟩⟩)

/-- A release drops what was collected of one segment. -/
theorem get?_release (r : Replayed) (id j : SegmentId) (x : AttributeId) :
    (r.release id).extended.get? (j, x) = if j = id then none else r.extended.get? (j, x) := by
  rw [Replayed.release, Table.get?_filter]
  by_cases hj : j = id
  · simp [hj]
  · cases r.extended.get? (j, x) <;> simp [hj]

/-- A release is remembered. -/
theorem mem_release (r : Replayed) (id j : SegmentId) :
    j ∈ (r.release id).released ↔ j = id ∨ j ∈ r.released := by
  rw [Replayed.release]
  split
  · next hin =>
    constructor
    · exact Or.inr
    · rintro (rfl | hj)
      · exact hin
      · exact hj
  · rw [List.mem_append, List.mem_singleton, or_comm]

/-- A segment ends, by a merge or a deletion. -/
theorem Agrees.release (h : r.Agrees a keys) {a' : Account} {e : Entry}
    {g? : Option SegmentAccount} (names : Table String SegmentId) (hplain : Plain e)
    (hid : e.metadata.id < r.nextId)
    (hshows : ∀ store, Entry.Shows store e.metadata.id (some e) g?)
    (hmerged : ∀ g, g? = some g → g.state = .merged)
    (hsegments : a'.segments = Function.update a.segments e.metadata.id g?)
    (hnames : ∀ n, names.get? n = a'.names n) (hnext : a'.nextId = a.nextId)
    (hfound : a'.found = a.found) :
    ({ r with entries := r.entries.insert e.metadata.id e, names }.release e.metadata.id).Agrees
      a' keys := by
  have hget : ∀ j, (r.entries.insert e.metadata.id e).get? j =
      if j = e.metadata.id then some e else r.entries.get? j := fun j => Table.get?_insert _ _ _ _
  let ended : Replayed := { r with entries := r.entries.insert e.metadata.id e, names }
  have hext : ∀ j x, (ended.release e.metadata.id).extended.get? (j, x) =
      if j = e.metadata.id then none else r.extended.get? (j, x) := ended.get?_release e.metadata.id
  have hmem : ∀ j, j ∈ (ended.release e.metadata.id).released ↔
      j = e.metadata.id ∨ j ∈ r.released := ended.mem_release e.metadata.id
  have hcounted : r.nextId ≤ (r.entries.insert e.metadata.id e).size + 1 :=
    Nat.le_trans h.counted (Nat.succ_le_succ (Table.size_le_insert _ _ _))
  refine ⟨fun j => ?_, hnames, h.nextId.trans hnext.symm, fun j e' he' => ?_, fun j e' he' => ?_,
    hcounted, fun j x v hv => ?_, fun j hj => ?_, fun k hk => ?_, fun j => hfound ▸ h.found j⟩
  · change Entry.Shows _ j ((r.entries.insert e.metadata.id e).get? j) _
    rw [hget, hsegments, Function.update_apply]
    by_cases hj : j = e.metadata.id
    · rw [if_pos hj, if_pos hj, hj]
      exact hshows _
    · rw [if_neg hj, if_neg hj]
      refine (h.segment j).congr_store fun _ _ _ x _ => ?_
      refine congrArg (Option.getD · nullValue) ?_
      exact (hext j x).trans (if_neg hj)
  · change (r.entries.insert e.metadata.id e).get? j = some e' at he'
    rw [hget] at he'
    by_cases hj : j = e.metadata.id
    · rw [if_pos hj, Option.some.injEq] at he'
      exact he' ▸ hplain
    · rw [if_neg hj] at he'
      exact h.plain j e' he'
  · change (r.entries.insert e.metadata.id e).get? j = some e' at he'
    rw [hget] at he'
    by_cases hj : j = e.metadata.id
    · exact hj ▸ hid
    · rw [if_neg hj] at he'
      exact h.numbered j e' he'
  · have hv' := (hext j x).symm.trans hv
    by_cases hj : j = e.metadata.id
    · rw [if_pos hj] at hv'
      cases hv'
    · rw [if_neg hj] at hv'
      rw [hsegments, Function.update_of_ne hj]
      obtain ⟨hx, hr, hthere⟩ := h.collected j x v hv'
      exact ⟨hx, fun hin => ((hmem j).mp hin).elim hj hr, hthere⟩
  · change (∃ e', (r.entries.insert e.metadata.id e).get? j = some e') ∧ _
    rw [hget, hsegments]
    rcases (hmem j).mp hj with rfl | hj
    · rw [if_pos rfl, Function.update_self]
      exact ⟨⟨e, rfl⟩, hmerged⟩
    · by_cases hje : j = e.metadata.id
      · rw [if_pos hje, hje, Function.update_self]
        exact ⟨⟨e, rfl⟩, hmerged⟩
      · rw [if_neg hje, Function.update_of_ne hje]
        exact h.released j hj
  · by_cases hk' : k.1 = e.metadata.id
    · exact Or.inl ((hmem k.1).mpr (Or.inl hk'))
    · rcases h.covered k hk with hr | ⟨g', hg', hs', hcol⟩
      · exact Or.inl ((hmem k.1).mpr (Or.inr hr))
      · refine Or.inr ⟨g', by rw [hsegments, Function.update_of_ne hk', hg'], hs', fun hx => ?_⟩
        obtain ⟨v, hv⟩ := hcol hx
        exact ⟨v, ((hext k.1 k.2).trans (if_neg hk')).trans hv⟩

/-- A segment that was not merged away is not released. -/
theorem Agrees.not_released (h : r.Agrees a keys) {id : SegmentId} {g : SegmentAccount}
    (hg : a.segments id = some g) (hstate : g.state ≠ .merged) : id ∉ r.released :=
  fun hin => hstate ((h.released id hin).2 g hg)

/-- Of segments to come nothing was collected or released. -/
theorem Agrees.nothing_of_le (h : r.Agrees a keys) {id : SegmentId} (hid : r.nextId ≤ id) :
    (∀ x, r.extended.get? (id, x) = none) ∧ id ∉ r.released := by
  have hnone : ∀ e, r.entries.get? id ≠ some e := fun e he =>
    Nat.not_lt.mpr hid (h.numbered id e he)
  constructor
  · intro x
    rw [Option.eq_none_iff_forall_ne_some]
    intro v hv
    obtain ⟨-, -, g, hg, -⟩ := h.collected id x v hv
    obtain ⟨e, he, -⟩ := (hg ▸ h.segment id).of_account
    exact hnone e he
  · intro hin
    obtain ⟨⟨e, he⟩, -⟩ := h.released id hin
    exact hnone e he

/-- A creation that the account admits is replayed. -/
theorem Agrees.create (h : r.Agrees a keys) {name : String} (hname : a.names name = none)
    (values : AttributeValues) :
    ∃ r', r.create a.nextId name values = .ok r' ∧
      r'.Agrees (a.apply (.create a.nextId name values))
        (keys ++ (Record.create a.nextId name values).named) := by
  have hfree : r.names.contains name = false := by
    rw [Table.contains, h.names, hname]
    rfl
  obtain ⟨hnew, hreleased⟩ := h.nothing_of_le (Nat.le_of_eq h.nextId)
  have hnone : r.entries.get? a.nextId = none := by
    rw [Option.eq_none_iff_forall_ne_some]
    exact fun e he => Nat.lt_irrefl _ (h.nextId ▸ h.numbered a.nextId e he)
  have hsum : sum (r.entries.size + 2) a.nextId 1 = a.nextId + 1 :=
    sum_of_le (h.nextId ▸ Nat.succ_le_succ h.counted)
  have hmax : max r.nextId (sum (r.entries.size + 2) a.nextId 1) = a.nextId + 1 := by
    rw [hsum, h.nextId]
    exact Nat.max_eq_right (Nat.le_succ _)
  refine ⟨_, by rw [Replayed.create, hfree]; rfl, ?_⟩
  refine h.withEntry (r.names.insert name a.nextId) _ (g := .created name)
    (e := .ofMetadata { Metadata.new a.nextId name with state := .active }) ?_ ?_ ?_ ?_ hreleased
    (by rw [Account.apply, h.found]; rfl) (fun n => ?_) hmax ?_ (Nat.le_max_left _ _) ?_ rfl
  · exact ⟨rfl, fun x => Table.get?_empty x⟩
  · exact ⟨rfl, rfl, rfl, rfl, rfl, rfl⟩
  · intro hm
    cases hm
  · have hnothing : r.shadow.valuesOf a.nextId = noValues :=
      AttributeStore.valuesOf_eq_noValues hnew
    exact hnothing ▸ AttributeTiers.coherent_valuesOf r.shadow a.nextId
  · rw [Table.get?_insert, h.names]
    exact (Function.update_apply a.names name (some a.nextId) n).symm
  · rw [hmax]
    exact Nat.lt_succ_self _
  · change _ ≤ (r.entries.insert a.nextId _).size + 1
    rw [hmax, Table.size_insert, Table.contains, hnone, ← h.nextId]
    exact Nat.succ_le_succ h.counted

/-- Fields of a segment that is active or sealed change, and attribute values are taken in. -/
theorem Agrees.change (h : r.Agrees a keys) (hw : a.WellFormed) {id : SegmentId}
    {g : SegmentAccount} (hg : a.segments id = some g) (hstate : g.state ≠ .merged)
    (f : SegmentAccount → SegmentAccount) (change : Entry → Entry) (hf : (f g).state ≠ .merged)
    (hattributes : (f g).attributes = g.attributes)
    (hmeta : ∀ e, (change e).metadata.id = e.metadata.id ∧
      (change e).metadata.attributes = e.metadata.attributes)
    (hchange : ∀ e : Entry, e.Depicts g → (change e).Depicts (f g)) (values : AttributeValues) :
    ∃ e, r.entry id = .ok e ∧ e.metadata.id = id ∧ e.Depicts g ∧
      (r.withEntry (change e) values).Agrees (a.modify id fun g => (f g).taking values)
        (keys ++ values.map fun v : AttributeId × AttributeValue => (id, v.1)) := by
  obtain ⟨e, hre, he, rfl, hd, hc⟩ := h.entry hw hg
  obtain ⟨hid, hat⟩ := hmeta e
  have hplain := h.plain _ e he
  refine ⟨e, hre, rfl, hd, ?_⟩
  rw [← hid] at hg ⊢
  refine h.withEntry r.names r.nextId ?_ (hchange e hd) hf ?_
    (h.not_released hg hstate) ?_ h.names h.nextId ?_ (Nat.le_refl _) ?_ rfl
  · exact ⟨by rw [hat]; exact hplain.extended, by rw [hat]; exact hplain.unstored⟩
  · rw [hat, hattributes, hid]
    exact hc.coherent hstate
  · rw [Account.modify, hg]
    rfl
  · rw [hid]
    exact h.numbered _ e he
  · exact Nat.le_trans h.counted (Nat.succ_le_succ (Table.size_le_insert _ _ _))

/-- A merge that the account admits is replayed. -/
theorem Agrees.merge (h : r.Agrees a keys) (hw : a.WellFormed) {target source : SegmentId}
    {sourceLength offset : Nat} (hr : a.Admits (.merge target source sourceLength offset)) :
    ∃ r', r.merge target source sourceLength offset = .ok r' ∧
      r'.Agrees (a.apply (.merge target source sourceLength offset)) keys := by
  have hne := Account.ne_of_admits_merge hr
  obtain ⟨t, u, ht, hu, hta, hus, htl, hul⟩ := hr
  have htm : t.state ≠ .merged := by
    rw [hta]
    decide
  have hum : u.state ≠ .merged := by
    rw [hus]
    decide
  have hlen : u.data.length = sourceLength := by
    rw [(hw.segment source u hu).sized hum, hul]
  -- the target first: it grows, which leaves the source as it was
  obtain ⟨e, hre, rfl, hd, hgrown⟩ := h.change hw ht htm (fun g => g.grown u.data)
    (fun e => grown e u.data u.data.length) htm rfl (fun _ => ⟨rfl, rfl⟩)
    (fun e hd => depicts_grown hd ((hw.segment target t ht).sized htm) u.data) []
  rw [hlen] at hgrown
  obtain ⟨c, hrc, hc, rfl, hcd, -⟩ := h.entry hw hu
  have hbytes : a.bytesOf c.metadata.id = u.data := by
    rw [Account.bytesOf, hu]
  have htake : c.data.take sourceLength = u.data := by
    rw [hcd.data, ← hlen, List.take_length]
  have hfits : e.metadata.length = offset ∧ c.metadata.length = sourceLength :=
    ⟨hd.length.trans htl, hcd.length.trans hul⟩
  let ended : Entry := { c with
    data := []
    metadata := { c.metadata with
      state := .merged
      mergedInto := some e.metadata.id
      attributes := { c.metadata.attributes with
        cache := c.metadata.attributes.cache.clear } } }
  have hplain : Plain ended :=
    ⟨rfl, (h.plain _ c hc).unstored⟩
  have hdepicts : ended.Depicts (u.mergedAway e.metadata.id) :=
    ⟨hcd.name, rfl, rfl, hcd.length, hcd.truncationOffset, rfl⟩
  have hnothing : ∀ x, ended.metadata.attributes.resident? x = none := by
    intro x
    rw [AttributeTiers.resident?, hplain.unstored x, Option.or_none]
    exact AttributeCache.peek_clear _ x
  have hsegments : (a.apply (.merge e.metadata.id c.metadata.id sourceLength offset)).segments =
      Function.update (a.modify e.metadata.id fun g => (g.grown u.data).taking []).segments
        c.metadata.id (some (u.mergedAway e.metadata.id)) := by
    have hu' : (a.modify e.metadata.id fun g => g.grown u.data).segments c.metadata.id = some u :=
      (Function.update_of_ne (Ne.symm hne) _ _).trans hu
    simp only [Account.apply, hbytes]
    rw [Account.modify, hu']
    rfl
  have hstep := hgrown.release r.names (e := ended) hplain (h.numbered _ c hc)
    (fun _ => .present rfl hdepicts ⟨fun hm => absurd rfl hm, fun _ => hnothing⟩)
    (fun g hg => by rw [← Option.some.inj hg]; rfl) hsegments h.names rfl rfl
  refine ⟨_, ?_, by simpa using hstep⟩
  simp only [Replayed.merge, hne, ↓reduceIte, hre, hrc, htake]
  rw [if_pos hfits]
  rfl

/-- A deletion that the account admits is replayed. -/
theorem Agrees.delete (h : r.Agrees a keys) (hw : a.WellFormed) {id : SegmentId}
    {g : SegmentAccount} (hg : a.segments id = some g) :
    ∃ r', r.delete id = .ok r' ∧ r'.Agrees (a.apply (.delete id)) keys := by
  obtain ⟨e, hre, he, rfl, hd, -⟩ := h.entry hw hg
  have hplain := h.plain _ e he
  have hnames : a.namesWithout e.metadata.id = Function.update a.names e.metadata.name none := by
    rw [Account.namesWithout, hg, hd.name]
  refine ⟨_, by rw [Replayed.delete, hre], ?_⟩
  refine h.release (r.names.erase e.metadata.name)
    (e := { e with metadata := { e.metadata with state := .deleted } })
    ⟨hplain.extended, hplain.unstored⟩ (h.numbered _ e he)
    (fun _ => .gone rfl rfl hplain.unstored) (fun _ hn => by cases hn) rfl
    (fun n => ?_) rfl rfl
  change _ = a.namesWithout e.metadata.id n
  rw [Table.get?_erase, h.names, hnames, Function.update_apply]

/-- Every record that can come next is taken in. -/
theorem Agrees.step (h : r.Agrees a keys) (hw : a.WellFormed) {record : Record}
    (hr : a.Admits record) :
    ∃ r', r.step record = .ok r' ∧ r'.Agrees (a.apply record) (keys ++ record.named) := by
  cases record with
  | create id name values =>
    obtain ⟨rfl, hname⟩ := hr
    exact h.create hname values
  | append id offset data values =>
    obtain ⟨g, hg, hactive, hlength⟩ := hr
    have hm : g.state ≠ .merged := by
      rw [hactive]
      decide
    obtain ⟨e, hre, -, hd, hstep⟩ := h.change hw hg hm (fun g => g.grown data)
      (fun e => grown e data data.length) (by simp [SegmentAccount.grown, hactive]) rfl
      (fun _ => ⟨rfl, rfl⟩)
      (fun e hd => depicts_grown hd ((hw.segment id g hg).sized hm) data) values
    refine ⟨_, ?_, hstep⟩
    have hfits : e.state = .active ∧ e.metadata.length = offset :=
      ⟨hd.state.trans hactive, hd.length.trans hlength⟩
    simp only [Replayed.step, Replayed.append, hre]
    rw [if_pos hfits]
  | updateAttributes id values =>
    obtain ⟨g, hg, hactive⟩ := hr
    obtain ⟨e, hre, -, -, hstep⟩ := h.change hw hg (by rw [hactive]; decide) (fun g => g)
      (fun e => e) (by rw [hactive]; decide) rfl (fun _ => ⟨rfl, rfl⟩) (fun _ hd => hd) values
    exact ⟨_, by simp only [Replayed.step, Replayed.updateAttributes, hre], hstep⟩
  | sealing id length =>
    obtain ⟨g, hg, hactive, hlength⟩ := hr
    obtain ⟨e, hre, rfl, hd, hstep⟩ := h.change hw hg (by rw [hactive]; decide)
      (fun g => { g with state := .sealed })
      (fun e => { e with metadata := { e.metadata with state := .sealed } }) (by simp) rfl
      (fun _ => ⟨rfl, rfl⟩)
      (fun e hd => ⟨hd.name, rfl, hd.mergedInto, hd.length, hd.truncationOffset, hd.data⟩) []
    refine ⟨_, ?_, hstep⟩
    simp only [Replayed.step, Replayed.sealing, hre]
    rw [if_pos (hd.length.trans hlength)]
    rfl
  | merge target source sourceLength offset =>
    simpa [Replayed.step, Record.named] using h.merge hw hr
  | truncate id offset =>
    obtain ⟨g, hg, hstate, -, hle⟩ := hr
    have hm : g.state ≠ .merged := by
      rcases hstate with hs | hs <;> rw [hs] <;> decide
    obtain ⟨e, hre, rfl, hd, hstep⟩ := h.change hw hg hm
      (fun g => { g with truncationOffset := offset })
      (fun e => { e with metadata := { e.metadata with truncationOffset := offset } }) hm rfl
      (fun _ => ⟨rfl, rfl⟩)
      (fun e hd => ⟨hd.name, hd.state, hd.mergedInto, hd.length, rfl, hd.data⟩) []
    refine ⟨_, ?_, hstep⟩
    simp only [Replayed.step, Replayed.truncate, hre]
    rw [if_pos (by rw [hd.length]; exact hle)]
    rfl
  | delete id =>
    obtain ⟨g, hg⟩ := hr
    simpa [Replayed.step, Record.named] using h.delete hw hg

end Replayed

end Segments
