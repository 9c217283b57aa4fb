import Segments.Proofs.Commit
import Segments.Proofs.Journal
import Segments.Proofs.Replay

/-!
# What ever reaches the attribute store

The attribute store is only written with values that waited for it, and only extended values that
some record commits come to wait. `Tidy` says so of an engine: all that waits, and all changes
that made the store, are of pairs of segment and attribute that satisfy some condition. With
`Storable` as the condition, taking in one more record keeps an engine tidy.
-/

namespace Segments

namespace Record

/-- The numbers of a record that can be written have 64 bits. -/
theorem Framable.number_lt {r : Record} (h : r.Framable) {n : Nat}
    (hn : FieldValue.number n ∈ r.values) : n < Bytes.capacity 8 := by
  have hfits := List.all_eq_true.mp h.1 _ hn
  simpa [FieldValue.fits] using hfits

/-- The values that can be stored for some records: extended ones that a record names, of a
segment with a number that can be written. -/
def Storable (rs : List Record) (id : SegmentId) (x : AttributeId) : Prop :=
  x.isCore = false ∧ id < Bytes.capacity 8 ∧ (id, x) ∈ rs.flatMap Record.named

/-- What can be stored for some records can be stored for more. -/
theorem Storable.append {rs : List Record} {id : SegmentId} {x : AttributeId}
    (h : Storable rs id x) (more : List Record) : Storable (rs ++ more) id x := by
  refine ⟨h.1, h.2.1, ?_⟩
  rw [List.flatMap_append]
  exact List.mem_append_left _ h.2.2

/-- What a record commits becomes storable with it. -/
theorem storable_of_named {r : Record} (h : r.Framable) (rs : List Record) {id : SegmentId}
    {x : AttributeId} (hx : (id, x) ∈ r.named) (hc : x.isCore = false) :
    Storable (rs ++ [r]) id x := by
  have hid : FieldValue.number id ∈ r.values := by
    cases r <;> simp only [Record.named, List.mem_map, Prod.mk.injEq, List.not_mem_nil] at hx <;>
      obtain ⟨-, -, rfl, -⟩ := hx <;> exact List.mem_cons_self
  refine ⟨hc, h.number_lt hid, ?_⟩
  rw [List.flatMap_append]
  exact List.mem_append_right _ (by simpa using hx)

end Record

/-- A change that stores a value of a certain kind, or erases a segment whose number can be
written. -/
def IndexChange.Allowed (P : SegmentId → AttributeId → Prop) : IndexChange → Prop
  | put segment id _ => P segment id
  | removeSegment segment => segment < Bytes.capacity 8

namespace AttributeStore

variable {P Q : SegmentId → AttributeId → Prop} {s earlier : AttributeStore}

/-- The bytes of the log, if the store keeps one. -/
def logged (s : AttributeStore) : Bytes :=
  match s.keeper with
  | .volatile _ => []
  | .logged l => l.log

/-- The store was made out of an earlier one by certain changes, which its log has in order if it
keeps one. -/
def Made (P : SegmentId → AttributeId → Prop) (s : AttributeStore)
    (earlier : AttributeStore := .ofLog .empty) : Prop :=
  ∃ changes : List IndexChange, (∀ c ∈ changes, c.Allowed P) ∧
    s.index = changes.foldl IndexChange.apply earlier.index ∧
    ∀ l, s.keeper = .logged l → l.log = earlier.logged ++ changes.flatMap IndexChange.encode

/-- An empty store in memory was made out of anything, by no changes. -/
theorem made_ofIndex_empty : (ofIndex .empty).Made P := ⟨[], nofun, rfl, nofun⟩

/-- Nothing has changed yet. -/
theorem made_self (s : AttributeStore) : s.Made P s :=
  ⟨[], nofun, rfl, fun l hl => by rw [logged, hl]; exact (List.append_nil _).symm⟩

/-- A store made by certain changes was made by changes of a wider kind. -/
theorem Made.mono (h : s.Made P earlier) (hPQ : ∀ id x, P id x → Q id x) : s.Made Q earlier := by
  obtain ⟨changes, hall, hindex, hlog⟩ := h
  refine ⟨changes, fun c hc => ?_, hindex, hlog⟩
  have hc' := hall c hc
  cases c with
  | put segment id value => exact hPQ segment id hc'
  | removeSegment segment => exact hc'

/-- More changes of the same kind. -/
theorem Made.write (h : s.Made P earlier) {changes : List IndexChange}
    (hall : ∀ c ∈ changes, c.Allowed P) {s' : AttributeStore}
    (hindex : s'.index = changes.foldl IndexChange.apply s.index)
    (hlog : ∀ l', s'.keeper = .logged l' → ∃ l, s.keeper = .logged l ∧
      l'.log = l.log ++ changes.flatMap IndexChange.encode) : s'.Made P earlier := by
  obtain ⟨before, hbefore, hindex₀, hlog₀⟩ := h
  refine ⟨before ++ changes, fun c hc => ?_, ?_, fun l' hl' => ?_⟩
  · exact (List.mem_append.mp hc).elim (hbefore c) (hall c)
  · rw [hindex, hindex₀, List.foldl_append]
  · obtain ⟨l, hl, hl''⟩ := hlog l' hl'
    rw [hl'', hlog₀ l hl, List.flatMap_append, List.append_assoc]

/-- Setting values of a kind makes one more store of that kind. -/
theorem Made.put (h : s.Made P earlier) {id : SegmentId} {values : AttributeValues}
    (hv : ∀ v ∈ values, P id v.1) : (s.put id values).1.Made P earlier := by
  cases hr : s.refusing with
  | true =>
    rw [put_of_refusing hr]
    exact h
  | false =>
    have hall : ∀ c ∈ values.map fun v => IndexChange.put id v.1 v.2, c.Allowed P := by
      intro c hc
      obtain ⟨v, hin, rfl⟩ := List.mem_map.mp hc
      exact hv v hin
    have hindex : ∀ i : AttributeIndex, i.put id values =
        (values.map fun v => IndexChange.put id v.1 v.2).foldl IndexChange.apply i := by
      intro i
      rw [List.foldl_map]
      rfl
    unfold AttributeStore.put
    simp only [hr, Bool.false_eq_true, ↓reduceIte]
    cases hk : s.keeper with
    | volatile i =>
      refine h.write hall ?_ nofun
      simp only [index, hk]
      exact hindex i
    | logged l =>
      refine h.write hall ?_ fun l' hl' => ⟨l, hk, ?_⟩
      · simp only [index, hk]
        rw [IndexLog.index_put]
        exact hindex l.index
      · cases hl'
        rfl

/-- Erasing a segment whose number can be written makes one more store of that kind. -/
theorem Made.removeSegment (h : s.Made P earlier) {id : SegmentId} (hid : id < Bytes.capacity 8) :
    (s.removeSegment id).1.Made P earlier := by
  cases hr : s.refusing with
  | true =>
    rw [removeSegment_of_refusing hr]
    exact h
  | false =>
    have hall : ∀ c ∈ [IndexChange.removeSegment id], c.Allowed P := by
      intro c hc
      rw [List.mem_singleton.mp hc]
      exact hid
    unfold AttributeStore.removeSegment
    simp only [hr, Bool.false_eq_true, ↓reduceIte]
    cases hk : s.keeper with
    | volatile i =>
      refine h.write hall ?_ nofun
      simp only [index, hk]
      rfl
    | logged l =>
      simp only [IndexLog.removeSegment]
      split
      · refine h.write hall ?_ fun l' hl' => ⟨l, hk, ?_⟩
        · simp only [index, hk]
          rfl
        · cases hl'
          rfl
      · refine h.write (List.forall_mem_nil _) ?_ fun l' hl' => ⟨l, hk, ?_⟩
        · simp only [index, hk]
          rfl
        · cases hl'
          simp

/-- Changes that store only values of a certain kind leave only such values. -/
theorem get?_foldl_apply {changes : List IndexChange} (hall : ∀ c ∈ changes, c.Allowed P)
    (i : AttributeIndex) (hi : ∀ id x v, i.get? id x = some v → P id x) (id : SegmentId)
    (x : AttributeId) (v : AttributeValue)
    (hv : (changes.foldl IndexChange.apply i).get? id x = some v) : P id x := by
  induction changes generalizing i with
  | nil => exact hi id x v hv
  | cons c changes ih =>
    refine ih (fun c' hc' => hall c' (List.mem_cons_of_mem _ hc')) (c.apply i)
      (fun id' x' v' hv' => ?_) hv
    have hc := hall c List.mem_cons_self
    cases c with
    | put segment y value =>
      rw [IndexChange.apply, AttributeIndex.get?_set] at hv'
      split at hv'
      · next heq =>
        rw [heq.1, heq.2]
        exact hc
      · exact hi id' x' v' hv'
    | removeSegment segment =>
      rw [IndexChange.apply, AttributeIndex.get?_removeSegment] at hv'
      split at hv'
      · cases hv'
      · exact hi id' x' v' hv'

/-- What is stored was put there. -/
theorem Made.stored (h : s.Made P) {id : SegmentId} {x : AttributeId} {v : AttributeValue}
    (hv : s.get? id x = some v) : P id x := by
  obtain ⟨changes, hall, hindex, -⟩ := h
  rw [get?, hindex] at hv
  have hempty : ∀ id x v, AttributeIndex.empty.get? id x = some v → P id x := by
    intro id x v hx
    cases hx
  exact get?_foldl_apply hall .empty hempty id x v hv

end AttributeStore

namespace AttributeTiers

/-- All values that wait for the store satisfy a condition. -/
def Waits (t : AttributeTiers) (P : AttributeId → Prop) : Prop :=
  ∀ x v, t.unstored.get? x = some v → P x

variable {t : AttributeTiers} {P : AttributeId → Prop}

/-- Recorded extended values are among those that wait. -/
theorem Waits.recordAll (h : t.Waits P) {values : AttributeValues}
    (hv : ∀ v ∈ values, v.1.isCore = false → P v.1) : (t.recordAll values).Waits P := by
  have hfold : (values.foldl AttributeTiers.record t).Waits P := by
    induction values generalizing t with
    | nil => exact h
    | cons v values ih =>
      refine ih (fun x w hw => ?_) fun w hw => hv w (List.mem_cons_of_mem _ hw)
      unfold AttributeTiers.record at hw
      cases hc : v.1.isCore with
      | true =>
        simp only [AttributeId.isExtended, hc, Bool.not_true, Bool.false_eq_true, ↓reduceIte] at hw
        exact h x w hw
      | false =>
        simp only [AttributeId.isExtended, hc, Bool.not_false, ↓reduceIte, Table.get?_insert] at hw
        split at hw
        · next hx =>
          rw [hx]
          exact hv v List.mem_cons_self hc
        · exact h x w hw
  unfold AttributeTiers.recordAll
  simp only
  split
  · exact hfold
  · exact hfold

/-- Writing through leaves nothing new waiting, and stores only what waited. -/
theorem Waits.writeThrough {P : SegmentId → AttributeId → Prop} {segment : SegmentId}
    (h : t.Waits (P segment)) {store : AttributeStore} (hs : store.Made P earlier) (name : String) :
    (t.writeThrough store segment name).1.Waits (P segment) ∧
      (t.writeThrough store segment name).2.1.Made P earlier := by
  refine ⟨?_, ?_⟩
  · rcases writeThrough_cases t store segment name with ⟨ht, -⟩ | ⟨ht, -⟩
    · rw [ht]
      exact h
    · rw [ht]
      exact fun x v hv => by rw [Table.get?_empty] at hv; cases hv
  · have hput := hs.put fun v hv => h v.1 v.2 ((t.unstored.get?_eq_some_iff_mem).mpr hv)
    unfold AttributeTiers.writeThrough
    split
    · exact hs
    · split
      · next heq => rwa [heq] at hput
      · next heq => rwa [heq] at hput

/-- Applied extended values are among those that wait, or the store has taken them. -/
theorem Waits.apply {P : SegmentId → AttributeId → Prop} {segment : SegmentId}
    (h : t.Waits (P segment)) {store : AttributeStore} (hs : store.Made P earlier) (name : String)
    (maxCached : Nat) {values : AttributeValues}
    (hv : ∀ v ∈ values, v.1.isCore = false → P segment v.1) :
    (t.apply store segment name maxCached values).1.Waits (P segment) ∧
      (t.apply store segment name maxCached values).2.1.Made P earlier :=
  (h.recordAll hv).writeThrough hs name

end AttributeTiers

namespace Engine

/-- All that waits for the attribute store and all that made it out of an earlier one is of a
certain kind. -/
structure Tidy (s : Engine) (P : SegmentId → AttributeId → Prop)
    (earlier : AttributeStore := .ofLog .empty) : Prop where
  /-- What waits is of the kind. -/
  waits : ∀ id e, s.entries.get? id = some e → e.metadata.attributes.Waits (P id)
  /-- So is what made the store. -/
  made : s.store.Made P earlier

variable {s s' : Engine} {P Q : SegmentId → AttributeId → Prop} {earlier : AttributeStore}

/-- A tidy store is tidy for a wider kind of values. -/
theorem Tidy.mono (h : s.Tidy P earlier) (hPQ : ∀ id x, P id x → Q id x) : s.Tidy Q earlier :=
  ⟨fun id e he x v hv => hPQ id x (h.waits id e he x v hv), h.made.mono hPQ⟩

/-- A store alike is as tidy. -/
theorem Tidy.alike (h : s.Tidy P earlier) (ha : s.Alike s') : s'.Tidy P earlier := by
  refine ⟨fun id e' he' => ?_, ha.store ▸ h.made⟩
  cases he : s.entries.get? id with
  | none =>
    rw [ha.noEntry id he] at he'
    cases he'
  | some e =>
    obtain ⟨e₁, he₁, halike⟩ := ha.entry id e he
    obtain rfl := Option.some.inj (he₁.symm.trans he')
    intro x v hv
    rw [halike.attributes.unstored] at hv
    exact h.waits id e he x v hv

/-- One entry and the store changed, both in an orderly way. -/
theorem Tidy.changedAt (h : s.Tidy P earlier) {id : SegmentId} {e : Entry}
    (hc : ChangedAt s s' id e) (he : e.metadata.attributes.Waits (P id))
    (hs : s'.store.Made P earlier) : s'.Tidy P earlier := by
  refine ⟨fun j e' he' => ?_, hs⟩
  rw [hc.entries] at he'
  split at he'
  · next hj =>
    obtain rfl := Option.some.inj he'
    rwa [hj]
  · exact h.waits j e' he'

/-- A store stays tidy if what waits of the entry that changes is still of the kind. -/
theorem Tidy.modifyEntry (h : s.Tidy P earlier) (id : SegmentId) {f : Entry → Entry}
    (hf : ∀ e, e.metadata.attributes.Waits (P id) → (f e).metadata.attributes.Waits (P id)) :
    (s.modifyEntry id f).Tidy P earlier := by
  cases he : s.entries.get? id with
  | none =>
    refine ⟨fun j e he' => ?_, h.made⟩
    rw [Engine.modifyEntry, Table.get?_modify] at he'
    split at he'
    · next hj =>
      rw [hj, he] at he'
      cases he'
    · exact h.waits j e he'
  | some e => exact h.changedAt (.modifyEntry he f) (hf e (h.waits id e he)) h.made

/-- A store stays tidy when values of the kind are applied. -/
theorem Tidy.applyAttributes (h : s.Tidy P earlier) (id : SegmentId) {values : AttributeValues}
    (hv : ∀ v ∈ values, v.1.isCore = false → P id v.1) :
    (s.applyAttributes id values).1.Tidy P earlier := by
  have hentry : (s.entry id).metadata.attributes.Waits (P id) := by
    unfold Engine.entry
    cases he : s.entries.get? id with
    | none => exact fun x v hx => by cases hx
    | some e => exact h.waits id e he
  have happly := hentry.apply h.made (s.entry id).name s.config.maxCachedAttributes hv
  exact ⟨(h.modifyEntry id (f := fun e => { e with metadata := { e.metadata with
    attributes := _ } }) fun _ _ => happly.1).waits, happly.2⟩

/-- A store stays tidy when the stored values of a segment are dropped. -/
theorem Tidy.dropStored (h : s.Tidy P earlier) {id : SegmentId} (hid : id < Bytes.capacity 8)
    (name : String) : (s.dropStored id name).1.Tidy P earlier := by
  rw [dropStored_fst]
  exact ⟨h.waits, h.made.removeSegment hid⟩

/-- Nothing of a segment that has ended waits for the store. -/
theorem waits_ended (e : Entry) (state : SegmentState) (mergedInto : Option SegmentId)
    (Q : AttributeId → Prop) : (ended e state mergedInto).metadata.attributes.Waits Q := by
  intro x v hv
  rw [ended, AttributeTiers.release, Table.get?_empty] at hv
  cases hv

/-- Applying a record keeps an engine tidy if the values that the record commits are of the
kind. -/
theorem Tidy.enact (h : s.Tidy P earlier) (callerName : String) {record : Record}
    (hr : record.Framable) (hv : ∀ k ∈ record.named, k.2.isCore = false → P k.1 k.2) :
    (s.enact callerName record).1.Tidy P earlier := by
  cases record with
  | create id name values =>
    have hvalues : ∀ v ∈ values, v.1.isCore = false → P id v.1 := fun v hin hc =>
      hv (id, v.1) (List.mem_map.mpr ⟨v, hin, rfl⟩) hc
    have hempty : AttributeTiers.empty.Waits (P id) := nofun
    have happly := hempty.apply h.made name s.config.maxCachedAttributes hvalues
    refine ⟨fun j e he => ?_, happly.2⟩
    change (s.entries.insert id _).get? j = some e at he
    rw [Table.get?_insert] at he
    split at he
    · next hj =>
      obtain rfl := Option.some.inj he
      rw [hj]
      exact happly.1
    · exact h.waits j e he
  | append id offset data values =>
    have hvalues : ∀ v ∈ values, v.1.isCore = false → P id v.1 := fun v hin hc =>
      hv (id, v.1) (List.mem_map.mpr ⟨v, hin, rfl⟩) hc
    have hgrown := h.modifyEntry id (f := fun e => { e with
      data := e.data ++ data
      metadata := { e.metadata with length := e.metadata.length + data.length } }) fun _ he => he
    exact (hgrown.applyAttributes id hvalues).modifyEntry id (f := Entry.publish) fun _ he => he
  | updateAttributes id values =>
    exact h.applyAttributes id fun v hin hc =>
      hv (id, v.1) (List.mem_map.mpr ⟨v, hin, rfl⟩) hc
  | sealing id length => exact h.modifyEntry id fun _ he => he
  | truncate id offset => exact h.modifyEntry id fun _ he => he
  | delete id =>
    have hid := hr.number_lt (n := id) List.mem_cons_self
    have hended := h.modifyEntry id
      (f := fun e => (ended e .deleted e.metadata.mergedInto).publish)
      fun e _ => waits_ended e .deleted e.metadata.mergedInto (P id)
    have hnamed : Tidy { s.modifyEntry id fun e =>
        (ended e .deleted e.metadata.mergedInto).publish with
        names := s.names.erase callerName } P earlier := ⟨hended.waits, hended.made⟩
    exact hnamed.dropStored hid callerName
  | merge target source sourceLength offset =>
    have hid := hr.number_lt (n := source) (List.mem_cons_of_mem _ List.mem_cons_self)
    have hgrown := h.modifyEntry target (f := fun e => { e with
      data := e.data ++ (s.entry source).data.take sourceLength
      metadata := { e.metadata with length := e.metadata.length + sourceLength } }.publish)
      fun _ he => he
    have hended := hgrown.modifyEntry source (f := fun e => (ended e .merged (some target)).publish)
      fun e _ => waits_ended e .merged (some target) (P source)
    exact hended.dropStored hid _

end Engine

end Segments
