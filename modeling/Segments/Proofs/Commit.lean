import Segments.Proofs.Proposals

/-!
# Commits keep the agreement

Applying a record that the account of an engine admits does to the engine what it does to the
account. So whatever is committed leaves an engine that agrees with the account of it.
-/

namespace Segments.Engine

variable {s : Engine} {a : Account}

/-- One entry of an engine changed, and of the stored values only those of its segment. -/
structure ChangedAt (s s' : Engine) (id : SegmentId) (e : Entry) : Prop where
  /-- The entry is in place, and the others are as they were. -/
  entries : ∀ j, s'.entries.get? j = if j = id then some e else s.entries.get? j
  /-- So are the stored values of the other segments. -/
  store : ∀ j, j ≠ id → ∀ x, s'.store.get? j x = s.store.get? j x
  /-- So is the number of the next segment. -/
  nextId : s'.nextId = s.nextId

namespace ChangedAt

variable {s s' s'' : Engine} {id : SegmentId} {e e' : Entry}

/-- An entry is changed twice. -/
theorem trans (h : ChangedAt s s' id e) (h' : ChangedAt s' s'' id e') : ChangedAt s s'' id e' where
  entries j := by
    rw [h'.entries, h.entries]
    by_cases hj : j = id <;> simp [hj]
  store j hj x := (h'.store j hj x).trans (h.store j hj x)
  nextId := h'.nextId.trans h.nextId

/-- The changed entry is the one that is there. -/
theorem get?_self (h : ChangedAt s s' id e) : s'.entries.get? id = some e := by
  rw [h.entries, if_pos rfl]

/-- An entry that is there is changed. -/
theorem modifyEntry (he : s.entries.get? id = some e) (f : Entry → Entry) :
    ChangedAt s (s.modifyEntry id f) id (f e) := by
  refine ⟨fun j => ?_, fun _ _ _ => rfl, rfl⟩
  rw [Engine.modifyEntry, Table.get?_modify]
  by_cases hj : j = id
  · rw [if_pos hj, if_pos hj, hj, he, Option.map_some]
  · rw [if_neg hj, if_neg hj]

/-- Committed values go to the tiers of the segment. -/
theorem applyAttributes (he : s.entries.get? id = some e) (values : AttributeValues) :
    ChangedAt s (s.applyAttributes id values).1 id { e with metadata := { e.metadata with
      attributes := (e.metadata.attributes.apply s.store id e.name s.config.maxCachedAttributes
        values).1 } } := by
  have hm := modifyEntry he fun e => { e with metadata := { e.metadata with
    attributes := ((s.entry id).metadata.attributes.apply s.store id (s.entry id).name
      s.config.maxCachedAttributes values).1 } }
  rw [entry_eq he] at hm
  refine ⟨fun j => ?_, fun j hj x => ?_, rfl⟩
  · rw [← hm.entries j]
    simp only [Engine.applyAttributes, entry_eq he]
  · simp only [Engine.applyAttributes, entry_eq he]
    exact AttributeTiers.apply_get?_of_ne e.metadata.attributes s.store hj e.name
      s.config.maxCachedAttributes values x

end ChangedAt

/-- Applied attributes are given to the attribute store as the tiers of the entry give them. -/
theorem applyAttributes_store {id : SegmentId} {e : Entry} (he : s.entries.get? id = some e)
    (values : AttributeValues) : (s.applyAttributes id values).1.store =
      (e.metadata.attributes.apply s.store id e.name s.config.maxCachedAttributes values).2.1 := by
  simp only [applyAttributes, entry_eq he]

/-- An engine with one entry changed follows with the account in which the segment changed. -/
theorem Agrees.changedAt (h : s.Agrees a) {s' : Engine} {a' : Account} {id : SegmentId}
    {e e' : Entry} (g? : Option SegmentAccount) (he : s.entries.get? id = some e)
    (hc : ChangedAt s s' id e') (hshows : Entry.Shows s'.store id (some e') g?)
    (hp : e.Precedes e' (a.segments id) g?)
    (hsegments : a'.segments = Function.update a.segments id g?)
    (hnames : ∀ n, s'.names.get? n = a'.names n) (hnext : a'.nextId = a.nextId)
    (hfound : a'.found = a.found) : s.Follows a s' a' := by
  have hid := h.numbered id e he
  refine ⟨⟨fun j => ?_, hnames, by rw [hc.nextId, h.nextId, hnext], fun j e₁ he₁ => ?_,
    fun j hj => ?_⟩, fun j e₁ he₁ => ?_⟩
  · rw [hc.entries, hsegments, Function.update_apply]
    by_cases hj : j = id
    · rw [if_pos hj, if_pos hj, hj]
      exact hshows
    · rw [if_neg hj, if_neg hj]
      refine (h.segment j).congr_store fun _ _ _ x _ => ?_
      rw [AttributeStore.value, hc.store j hj, AttributeStore.value]
  · rw [hc.nextId]
    rw [hc.entries] at he₁
    by_cases hj : j = id
    · exact hj ▸ hid
    · rw [if_neg hj] at he₁
      exact h.numbered j e₁ he₁
  · rw [hc.nextId] at hj
    rw [hfound, ← h.fresh j hj]
    exact AttributeStore.valuesOf_congr (hc.store j fun he => Nat.not_lt.mpr hj (he ▸ hid))
  · rw [hc.entries, hsegments, Function.update_apply]
    by_cases hj : j = id
    · subst hj
      rw [he, Option.some.injEq] at he₁
      exact ⟨e', if_pos rfl, by rw [if_pos rfl, ← he₁]; exact hp⟩
    · rw [if_neg hj, if_neg hj, he₁]
      exact ⟨e₁, rfl, .refl e₁ _⟩

/-- A creation that is enacted is what the account says of its record. -/
theorem Agrees.enact_create (h : s.Agrees a) (callerName : String) {name : String}
    (values : AttributeValues) :
    s.Follows a (s.enact callerName (.create a.nextId name values)).1
      (a.apply (.create a.nextId name values)) := by
  have hempty := h.fresh a.nextId (Nat.le_of_eq h.nextId) ▸
    AttributeTiers.coherent_valuesOf s.store a.nextId
  have hcoherent := hempty.apply name s.config.maxCachedAttributes values
  have hother : ∀ j, j ≠ a.nextId → ∀ x,
      (AttributeTiers.empty.apply s.store a.nextId name s.config.maxCachedAttributes
        values).2.1.get? j x = s.store.get? j x :=
    fun j hj x => AttributeTiers.apply_get?_of_ne _ _ hj _ _ _ x
  refine ⟨⟨fun j => ?_, fun n => ?_, rfl, fun j e he => ?_, fun j hj => ?_⟩, fun j e he => ?_⟩
  · change Entry.Shows _ j ((s.entries.insert a.nextId _).get? j) _
    rw [Table.get?_insert]
    by_cases hj : j = a.nextId
    · subst hj
      rw [if_pos rfl, Account.apply]
      simp only [Function.update_self]
      exact .present rfl ⟨rfl, rfl, rfl, rfl, rfl, rfl⟩
        ⟨fun _ => hcoherent, fun hm => by cases hm⟩
    · rw [if_neg hj, Account.apply]
      simp only [Function.update_of_ne hj]
      refine (h.segment j).congr_store fun _ _ _ x _ => ?_
      exact congrArg (Option.getD · nullValue) (hother j hj x)
  · change (s.names.insert name a.nextId).get? n = _
    rw [Table.get?_insert, h.names]
    exact (Function.update_apply a.names name (some a.nextId) n).symm
  · change (s.entries.insert a.nextId _).get? j = some e at he
    change j < a.nextId + 1
    rw [Table.get?_insert] at he
    by_cases hj : j = a.nextId
    · exact hj ▸ Nat.lt_succ_self _
    · rw [if_neg hj] at he
      exact Nat.lt_succ_of_lt (h.nextId ▸ h.numbered j e he)
  · change a.nextId + 1 ≤ j at hj
    have hlt : a.nextId < j := hj
    refine Eq.trans ?_ (h.fresh j (h.nextId ▸ Nat.le_of_lt hlt))
    exact AttributeStore.valuesOf_congr (hother j (Nat.ne_of_gt hlt))
  · have hj : j ≠ a.nextId := by
      rintro rfl
      exact Nat.lt_irrefl _ (h.nextId ▸ h.numbered _ e he)
    refine ⟨e, ?_, ?_⟩
    · change (s.entries.insert a.nextId _).get? j = some e
      rw [Table.get?_insert, if_neg hj, he]
    · rw [Account.apply]
      simp only [Function.update_of_ne hj]
      exact .refl e _

/-- An append that is enacted is what the account says of its record. -/
theorem Agrees.enact_append (h : s.Agrees a) (callerName : String) {id : SegmentId}
    {g : SegmentAccount} (hg : a.segments id = some g) (hactive : g.state = .active)
    (offset : Nat) (data : Bytes) (values : AttributeValues) :
    s.Follows a (s.enact callerName (.append id offset data values)).1
      (a.apply (.append id offset data values)) := by
  obtain ⟨e, he, hown, hd, hcarries⟩ := (hg ▸ h.segment id).of_account
  have hstate : g.state ≠ .merged := by
    rw [hactive]
    decide
  have hgrown := ChangedAt.modifyEntry he fun e => { e with
    data := e.data ++ data
    metadata := { e.metadata with length := e.metadata.length + data.length } }
  have happlied := ChangedAt.applyAttributes hgrown.get?_self values
  have hc := (hgrown.trans happlied).trans (.modifyEntry happlied.get?_self Entry.publish)
  refine h.changedAt (some ((g.grown data).taking values)) he hc
    (.present hown ?_ ⟨fun _ => ?_, ?_⟩) ⟨?_, ?_, fun hepoch g' hg' => ?_⟩
    (by rw [Account.apply, Account.modify, hg]; rfl)
    h.names rfl rfl
  · exact ⟨hd.name, hd.state, hd.mergedInto, congrArg (· + data.length) hd.length,
      hd.truncationOffset, congrArg (· ++ data) hd.data⟩
  · change AttributeTiers.Coherent _ (applyAttributes _ id values).1.store id _
    rw [applyAttributes_store hgrown.get?_self]
    exact (hcarries.coherent hstate).apply _ _ values
  · exact fun hm => absurd hm hstate
  · exact Nat.le_add_right _ _
  · exact AttributeTiers.precedes_apply _ _ _ _ _ _
  · have hcore := AttributeTiers.isExtended_of_epoch_recordAll
      ((AttributeTiers.epoch_apply _ _ _ _ _ _).symm.trans hepoch)
    rw [← Option.some.inj hg']
    exact ⟨g, hg, fun hm => hm, fun x hx => AttributeTiers.overlaid_of_core hcore _ hx⟩

/-- An update of attributes that is enacted is what the account says of its record. -/
theorem Agrees.enact_update (h : s.Agrees a) (callerName : String) {id : SegmentId}
    {g : SegmentAccount} (hg : a.segments id = some g) (hactive : g.state = .active)
    (values : AttributeValues) :
    s.Follows a (s.enact callerName (.updateAttributes id values)).1
      (a.apply (.updateAttributes id values)) := by
  obtain ⟨e, he, hown, hd, hcarries⟩ := (hg ▸ h.segment id).of_account
  have hstate : g.state ≠ .merged := by
    rw [hactive]
    decide
  refine h.changedAt (some (g.taking values)) he (.applyAttributes he values)
    (.present hown ⟨hd.name, hd.state, hd.mergedInto, hd.length, hd.truncationOffset, hd.data⟩
      ⟨fun _ => ?_, fun hm => absurd hm hstate⟩)
    ⟨Nat.le_refl _, AttributeTiers.precedes_apply _ _ _ _ _ _, fun hepoch g' hg' => ?_⟩
    (by rw [Account.apply, Account.modify, hg]; rfl) h.names rfl rfl
  · change AttributeTiers.Coherent _ (applyAttributes s id values).1.store id _
    rw [applyAttributes_store he]
    exact (hcarries.coherent hstate).apply _ _ values
  · have hcore := AttributeTiers.isExtended_of_epoch_recordAll
      ((AttributeTiers.epoch_apply _ _ _ _ _ _).symm.trans hepoch)
    rw [← Option.some.inj hg']
    exact ⟨g, hg, fun hm => hm, fun x hx => AttributeTiers.overlaid_of_core hcore _ hx⟩

/-- A change of fields that leaves the attributes alone. -/
theorem Agrees.modifyEntry (h : s.Agrees a) {id : SegmentId} {g : SegmentAccount}
    (hg : a.segments id = some g) (hstate : g.state ≠ .merged)
    (f : SegmentAccount → SegmentAccount) (change : Entry → Entry) (hf : (f g).state ≠ .merged)
    (hattributes : (f g).attributes = g.attributes)
    (hmeta : ∀ e, (change e).metadata.id = e.metadata.id ∧
      (change e).metadata.attributes = e.metadata.attributes)
    (hlength : ∀ e : Entry, e.metadata.length ≤ (change e).metadata.length)
    (hchange : ∀ e : Entry, e.Depicts g → (change e).Depicts (f g)) :
    s.Follows a (s.modifyEntry id change) (a.modify id f) := by
  obtain ⟨e, he, hown, hd, hcarries⟩ := (hg ▸ h.segment id).of_account
  refine h.changedAt (some (f g)) he (.modifyEntry he change)
    (.present ((hmeta e).1.trans hown) (hchange e hd) ⟨fun _ => ?_, fun hm => absurd hm hf⟩)
    ⟨hlength e, by rw [(hmeta e).2]; exact .refl _, fun _ g' hg' => ?_⟩
    (by rw [Account.modify, hg]; rfl) h.names rfl rfl
  · rw [(hmeta e).2, hattributes]
    exact hcarries.coherent hstate
  · rw [← Option.some.inj hg', hattributes]
    exact ⟨g, hg, fun _ => hf, fun _ _ => rfl⟩

/-- Dropping the stored values of a segment changes the attribute store alone. -/
theorem dropStored_fst (s : Engine) (id : SegmentId) (name : String) :
    (s.dropStored id name).1 = { s with store := (s.store.removeSegment id).1 } := by
  unfold dropStored
  split
  · next h => rw [h]
  · next h => rw [h]

/-- Erasing the stored values of a segment leaves its entry as it was. -/
theorem ChangedAt.removeStored {id : SegmentId} {e : Entry} (he : s.entries.get? id = some e) :
    ChangedAt s { s with store := (s.store.removeSegment id).1 } id e := by
  refine ⟨fun j => ?_, fun j hj x => AttributeStore.get?_removeSegment_of_ne _ hj x, rfl⟩
  by_cases hj : j = id
  · rw [if_pos hj, hj, he]
  · rw [if_neg hj]

/-- Of a segment that has ended memory knows nothing. -/
theorem resident?_ended (e : Entry) (state : SegmentState) (mergedInto : Option SegmentId)
    (x : AttributeId) : (ended e state mergedInto).metadata.attributes.resident? x = none := by
  rw [ended, AttributeTiers.release, AttributeTiers.resident?, AttributeCache.peek_clear]
  exact Table.get?_empty x

/-- A deletion that is enacted is what the account says of its record. -/
theorem Agrees.enact_delete (h : s.Agrees a) {name : String} {id : SegmentId}
    {g : SegmentAccount} (hg : a.segments id = some g) (hname : g.name = name) :
    s.Follows a (s.enact name (.delete id)).1 (a.apply (.delete id)) := by
  obtain ⟨e, he, hown, -, -⟩ := (hg ▸ h.segment id).of_account
  have hended := ChangedAt.modifyEntry he fun e =>
    (ended e .deleted e.metadata.mergedInto).publish
  have hall := hended.trans (.removeStored hended.get?_self)
  simp only [Engine.enact, dropStored_fst]
  refine h.changedAt none he ⟨hall.entries, hall.store, hall.nextId⟩
    (.gone hown rfl fun x => Table.get?_empty x)
    (.of_epoch_lt (Nat.le_refl _) (Nat.lt_succ_self _)) rfl (fun n => ?_) rfl rfl
  change (s.names.erase name).get? n = a.namesWithout id n
  rw [Table.get?_erase, h.names, Account.namesWithout, hg, ← hname]
  exact (Function.update_apply a.names g.name none n).symm

/-- A merge that is enacted is what the account says of its record. -/
theorem Agrees.enact_merge (h : s.Agrees a) (hw : a.WellFormed) (callerName : String)
    {target source : SegmentId} {sourceLength offset : Nat}
    (hr : a.Admits (.merge target source sourceLength offset)) :
    s.Follows a (s.enact callerName (.merge target source sourceLength offset)).1
      (a.apply (.merge target source sourceLength offset)) := by
  have hne := Account.ne_of_admits_merge hr
  obtain ⟨t, u, ht, hu, hta, hus, -, hul⟩ := hr
  have htm : t.state ≠ .merged := by
    rw [hta]
    decide
  have hum : u.state ≠ .merged := by
    rw [hus]
    decide
  obtain ⟨c, hc, -, hcd, -⟩ := (hu ▸ h.segment source).of_account
  have hsized := (hw.segment source u hu).sized hum
  have hmoved : (s.entry source).data.take sourceLength = u.data := by
    rw [entry_eq hc, hcd.data, ← hul, ← hsized, List.take_length]
  have hbytes : a.bytesOf source = u.data := by
    rw [Account.bytesOf, hu]
  -- the target first: it grows, which leaves the source as it was
  have hgrown := h.modifyEntry ht htm (fun g => g.grown u.data)
    (fun e => { e with
      data := e.data ++ u.data
      metadata := { e.metadata with length := e.metadata.length + sourceLength } }.publish) htm rfl
    (fun _ => ⟨rfl, rfl⟩) (fun _ => Nat.le_add_right _ _)
    (fun e hd => ⟨hd.name, hd.state, hd.mergedInto, by
      rw [Entry.publish, hd.length, ← hul, ← hsized]
      rfl, hd.truncationOffset, congrArg (· ++ u.data) hd.data⟩)
  have hu' : (a.modify target fun g => g.grown u.data).segments source = some u :=
    (Function.update_of_ne (Ne.symm hne) _ _).trans hu
  obtain ⟨d, hd, hdown, hdd, -⟩ := (hu' ▸ hgrown.agrees.segment source).of_account
  have hended := ChangedAt.modifyEntry hd fun e => (ended e .merged (some target)).publish
  have hall := hended.trans (.removeStored hended.get?_self)
  have hsegments : ((a.modify target fun g => g.grown u.data).modify source
      fun g => g.mergedAway target).segments = Function.update
        (a.modify target fun g => g.grown u.data).segments source (some (u.mergedAway target)) := by
    rw [Account.modify, hu']
    rfl
  have hresult := hgrown.agrees.changedAt (some (u.mergedAway target)) hd hall
    (.present hdown ⟨hdd.name, rfl, rfl, hdd.length, hdd.truncationOffset, rfl⟩
      ⟨fun hm => absurd rfl hm, fun _ x => resident?_ended d .merged (some target) x⟩)
    (.of_epoch_lt (Nat.le_refl _) (Nat.lt_succ_self _)) hsegments hgrown.agrees.names rfl
    rfl
  simpa only [Engine.enact, dropStored_fst, hmoved, Account.apply, hbytes] using
    hgrown.trans hresult

/-- Applying a record that its account admits keeps the agreement. -/
theorem Agrees.enact (h : s.Agrees a) (hw : a.WellFormed) {callerName : String} {record : Record}
    (hr : a.Admits record) (hname : ∀ id, record = .delete id → a.names callerName = some id) :
    s.Follows a (s.enact callerName record).1 (a.apply record) := by
  cases record with
  | create id name values =>
    obtain ⟨rfl, -⟩ := hr
    exact h.enact_create callerName values
  | append id offset data values =>
    obtain ⟨g, hg, hactive, -⟩ := hr
    exact h.enact_append callerName hg hactive offset data values
  | updateAttributes id values =>
    obtain ⟨g, hg, hactive⟩ := hr
    exact h.enact_update callerName hg hactive values
  | sealing id length =>
    obtain ⟨g, hg, hactive, -⟩ := hr
    exact h.modifyEntry hg (by rw [hactive]; decide) (fun g => { g with state := .sealed }) _
      (by simp) rfl (fun _ => ⟨rfl, rfl⟩) (fun _ => Nat.le_refl _)
      (fun e hd => ⟨hd.name, rfl, hd.mergedInto, hd.length, hd.truncationOffset, hd.data⟩)
  | merge target source sourceLength offset => exact h.enact_merge hw callerName hr
  | truncate id offset =>
    obtain ⟨g, hg, hstate, -, -⟩ := hr
    have hm : g.state ≠ .merged := by
      rcases hstate with hs | hs <;> rw [hs] <;> decide
    exact h.modifyEntry hg hm (fun g => { g with truncationOffset := offset }) _ hm rfl
      (fun _ => ⟨rfl, rfl⟩) (fun _ => Nat.le_refl _)
      (fun e hd => ⟨hd.name, hd.state, hd.mergedInto, hd.length, rfl, hd.data⟩)
  | delete id =>
    obtain ⟨g, hg⟩ := hr
    obtain ⟨g', hg', hname'⟩ := hw.name callerName id (hname id rfl)
    rw [hg, Option.some.injEq] at hg'
    exact h.enact_delete hg (hg' ▸ hname')

end Segments.Engine
