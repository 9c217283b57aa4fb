import Segments.Proofs.Traffic

/-!
# How the stored values of a segment go on

The attribute store is read while other operations go on, so what is found there may lag behind what
is committed: values that the store refused wait in memory. But the stored values of a segment never
mix moments. Each move leaves them as they are, or stores all that waited, so that they are the
committed values then, or erases them because the segment can no longer be read.
-/

namespace Segments

/-- Of a segment that cannot be read nothing waits for the attribute store. -/
theorem Entry.Shows.unstored_of_not_readable {store : AttributeStore} {id : SegmentId} {e : Entry}
    {g? : Option SegmentAccount} (h : Entry.Shows store id (some e) g?)
    (hw : ∀ g, g? = some g → g.WellFormed) (hr : ¬(e.state = .active ∨ e.state = .sealed))
    (x : AttributeId) : e.metadata.attributes.unstored.get? x = none := by
  cases h with
  | gone own deleted unstored => exact unstored x
  | @present _ g own depicts carries =>
    have hm : g.state = .merged := by
      rcases (hw g rfl).state with hs | hs | hs
      · exact absurd (Or.inl (depicts.state.trans hs)) hr
      · exact absurd (Or.inr (depicts.state.trans hs)) hr
      · exact hs
    exact (Option.or_eq_none_iff.mp (carries.released hm x)).2

namespace Engine

/-- Whether the content of a segment can be read. -/
def Readable (s : Engine) (id : SegmentId) : Prop :=
  (s.entry id).state = .active ∨ (s.entry id).state = .sealed

/-- How the stored values of a segment go on. -/
inductive Deposits (s s' : Engine) (id : SegmentId) : Prop where
  /-- They stay. -/
  | keeps (same : ∀ x, s'.store.value id x = s.store.value id x)
  /-- All that waited was stored. -/
  | stores (readable : s'.Readable id)
      (clear : ∀ x, (s'.entry id).metadata.attributes.unstored.get? x = none)
  /-- They were erased with the segment. -/
  | erases (ended : ¬s'.Readable id) (erased : ∀ x, s'.store.value id x = nullValue)

variable {s s' s'' : Engine} {a : Account} {rs : List Record} {rest : Bytes} {id : SegmentId}
  {e : Entry} {found : SegmentId → AttributeId → AttributeValue}

/-- What is alike can be read alike. -/
theorem Alike.readable_iff (h : s.Alike s') (id : SegmentId) : s'.Readable id ↔ s.Readable id := by
  have hstate : (s'.entry id).state = (s.entry id).state := (h.entry_alike id).state
  rw [Readable, Readable, hstate]

/-- Whether a segment can be read is up to its entry. -/
theorem readable_of_entry (he : s.entries.get? id = some e) :
    s.Readable id ↔ e.state = .active ∨ e.state = .sealed := by
  rw [Readable, entry_eq he]

namespace Deposits

/-- With the same store the values stay. -/
theorem of_store (h : s'.store = s.store) : s.Deposits s' id :=
  .keeps fun x => by rw [h]

/-- With the same values in the store they stay. -/
theorem of_get? (h : ∀ x, s'.store.get? id x = s.store.get? id x) : s.Deposits s' id :=
  .keeps fun x => by rw [AttributeStore.value, AttributeStore.value, h]

/-- What is stored before a change matters only through the store. -/
theorem after_store (h : s'.Deposits s'' id) (hs : s'.store = s.store) : s.Deposits s'' id := by
  cases h with
  | keeps same => exact .keeps fun x => by rw [same, hs]
  | stores readable clear => exact .stores readable clear
  | erases ended erased => exact .erases ended erased

/-- Two steps, the second of which neither begins nor ends a segment and lets nothing wait. -/
theorem trans (h : s.Deposits s' id) (h' : s'.Deposits s'' id)
    (hreadable : s''.Readable id ↔ s'.Readable id)
    (hclear : ∀ x, (s'.entry id).metadata.attributes.unstored.get? x = none →
      (s''.entry id).metadata.attributes.unstored.get? x = none) : s.Deposits s'' id := by
  cases h' with
  | keeps same' =>
    cases h with
    | keeps same => exact .keeps fun x => (same' x).trans (same x)
    | stores readable clear =>
      exact .stores (hreadable.mpr readable) fun x => hclear x (clear x)
    | erases ended erased =>
      exact .erases (fun hr => ended (hreadable.mp hr)) fun x => (same' x).trans (erased x)
  | stores readable clear => exact .stores readable clear
  | erases ended erased => exact .erases ended erased

theorem alike (h : s.Deposits s' id) (ha : s'.Alike s'') : s.Deposits s'' id :=
  h.trans (.of_store ha.store) (ha.readable_iff id) fun x hx => by
    rw [(ha.entry_alike id).attributes.unstored, hx]

end Deposits

/-- Committed values of a segment are stored with all that waited, or none of them is. -/
theorem deposits_applyAttributes (s : Engine) {j : SegmentId} (he : s.entries.get? j = some e)
    (hreadable : e.state = .active ∨ e.state = .sealed) (id : SegmentId)
    (values : AttributeValues) : s.Deposits (s.applyAttributes j values).1 id := by
  have hchanged := ChangedAt.applyAttributes he values
  by_cases hid : id = j
  · subst hid
    have hstore := applyAttributes_store he values
    rcases AttributeTiers.writeThrough_cases (e.metadata.attributes.recordAll values) s.store id
        e.name with ⟨-, hsame⟩ | ⟨hempty, -, -⟩
    · exact .of_store (hstore.trans hsame)
    · refine .stores ((readable_of_entry hchanged.get?_self).mpr hreadable) fun x => ?_
      rw [entry_eq hchanged.get?_self]
      have hclear : (e.metadata.attributes.apply s.store id e.name s.config.maxCachedAttributes
          values).1.unstored = .empty := congrArg AttributeTiers.unstored hempty
      exact (congrArg (Table.get? · x) hclear).trans (Table.get?_empty x)
  · exact .of_get? (hchanged.store id hid)

/-- With a segment that ends its stored values are erased, unless the store refuses. -/
theorem deposits_dropStored (s : Engine) {j : SegmentId} (hj : ¬s.Readable j) (id : SegmentId)
    (name : String) : s.Deposits (s.dropStored j name).1 id := by
  rw [dropStored_fst]
  by_cases hid : id = j
  · subst hid
    cases hr : s.store.refusing with
    | true => exact .of_store (by rw [AttributeStore.removeSegment_of_refusing hr])
    | false =>
      obtain ⟨store, hremoved, -, hget⟩ := AttributeStore.removeSegment_of_taking hr id
      refine .erases hj fun x => ?_
      rw [hremoved, AttributeStore.value, hget, if_pos rfl]
      rfl
  · exact .of_get? fun x => AttributeStore.get?_removeSegment_of_ne s.store hid x

/-- A segment that ended cannot be read. -/
theorem not_readable_ended (he : s.entries.get? id = some e) (state : SegmentState)
    (hactive : state ≠ .active) (hsealed : state ≠ .sealed)
    (mergedInto : Entry → Option SegmentId) :
    ¬(s.modifyEntry id fun e => (ended e state (mergedInto e)).publish).Readable id := by
  rw [readable_of_entry (ChangedAt.modifyEntry he _).get?_self]
  exact fun h => h.elim hactive hsealed

/-- Applying a record leaves what is stored of a segment, stores all that waited, or erases it. -/
theorem Agrees.deposits_enact (h : s.Agrees a) {record : Record} (hr : a.Admits record)
    (he : s.entries.get? id = some e) (callerName : String) :
    s.Deposits (s.enact callerName record).1 id := by
  cases record with
  | create j name values =>
    obtain ⟨rfl, -⟩ := hr
    have hid : id ≠ a.nextId := by
      have hlt := h.numbered id e he
      rw [h.nextId] at hlt
      exact Nat.ne_of_lt hlt
    exact .of_get? fun x => AttributeTiers.apply_get?_of_ne .empty s.store hid name
      s.config.maxCachedAttributes values x
  | append j offset data values =>
    obtain ⟨g, hg, hactive, -⟩ := hr
    obtain ⟨c, hc, -, hd, -⟩ := (hg ▸ h.segment j).of_account
    have hgrown := ChangedAt.modifyEntry hc fun e => { e with
      data := e.data ++ data
      metadata := { e.metadata with length := e.metadata.length + data.length } }
    have happlied := deposits_applyAttributes _ hgrown.get?_self
      (Or.inl (hd.state.trans hactive)) id values
    have hpublished := happlied.alike (.modifyEntry _ j fun e _ => .publish e)
    exact hpublished.after_store rfl
  | updateAttributes j values =>
    obtain ⟨g, hg, hactive⟩ := hr
    obtain ⟨c, hc, -, hd, -⟩ := (hg ▸ h.segment j).of_account
    exact deposits_applyAttributes s hc (Or.inl (hd.state.trans hactive)) id values
  | sealing j length => exact .of_store rfl
  | truncate j offset => exact .of_store rfl
  | delete j =>
    obtain ⟨g, hg⟩ := hr
    obtain ⟨c, hc, -⟩ := (hg ▸ h.segment j).of_account
    have hended := not_readable_ended hc .deleted (by decide) (by decide)
      fun e => e.metadata.mergedInto
    have hdropped := deposits_dropStored { s.modifyEntry j fun e =>
      (ended e .deleted e.metadata.mergedInto).publish with names := s.names.erase callerName }
      hended id callerName
    exact hdropped.after_store rfl
  | merge target source sourceLength offset =>
    have hne := Account.ne_of_admits_merge hr
    obtain ⟨t, u, -, hu, -⟩ := hr
    obtain ⟨c, hc, -⟩ := (hu ▸ h.segment source).of_account
    have hc' : (s.modifyEntry target fun e => { e with
        data := e.data ++ (s.entry source).data.take sourceLength
        metadata := { e.metadata with
          length := e.metadata.length + sourceLength } }.publish).entries.get? source = some c := by
      rw [Engine.modifyEntry, Table.get?_modify, if_neg (Ne.symm hne), hc]
    have hended := not_readable_ended hc' .merged (by decide) (by decide)
      fun _ => some target
    exact (deposits_dropStored _ hended id _).after_store rfl

/-- An execution does what its record does. -/
theorem Sound.deposits_execute (h : s.Sound rs rest found) (action : Action)
    (he : s.entries.get? id = some e) : s.Deposits (s.execute action).1 id := by
  have hexecuted := s.executes action
  generalize (s.execute action).1 = s', (s.execute action).2.2 = result at hexecuted
  have htouched : s.Alike (s.touchConsulted action) := .touchConsulted s action
  cases hexecuted with
  | refused proposed => exact .of_store htouched.store
  | idles proposed => exact .of_store htouched.store
  | fails proposed appended => exact .of_store htouched.store
  | @commits record answer log n proposed appended =>
    have hadmits := h.agrees.admits h.wellFormed (proposes_of_commit proposed)
    obtain ⟨e', he', -⟩ := htouched.entry id e he
    have hbefore := (htouched.agrees h.agrees).withLog log
    exact (hbefore.deposits_enact hadmits he' action.callerName).after_store htouched.store

/-- A step of an operation keeps stored values, stores all that waited or erases them. -/
theorem Sound.deposits_goes {o : Operation} {phase : Phase} (h : s.Sound rs rest found)
    (he : s.entries.get? id = some e) (hg : Goes s o s' phase) : s.Deposits s' id := by
  cases hg with
  | waits alike => exact .of_store alike.store
  | queues held place wanted asked alike => exact .of_store alike.store
  | closes closed alike => exact .of_store alike.store
  | answers result none fails alike => exact .of_store alike.store
  | @executes s₁ _ action asked alike isOpen after =>
    obtain ⟨e₁, he₁, -⟩ := alike.entry id e he
    have hexecuted := (h.alike alike).sound.deposits_execute action he₁
    exact (hexecuted.alike after).after_store alike.store
  | begins ids cache found readable => exact .of_store rfl
  | reads phase => exact .of_store rfl
  | @ends j l cache values phase =>
    refine .of_store ?_
    simp only [finishLookup]
    split <;> rfl
  | stays phase => exact .of_store rfl

/-- Nothing waits for the store of a segment that cannot be read. -/
theorem Agrees.unstored_of_not_readable (h : s.Agrees a) (hw : a.WellFormed)
    (he : s.entries.get? id = some e) (hr : ¬s.Readable id) (x : AttributeId) :
    e.metadata.attributes.unstored.get? x = none := by
  rw [readable_of_entry he] at hr
  exact (he ▸ h.segment id).unstored_of_not_readable (hw.segment id) hr x

/-- Accounts say which segments can be read. -/
theorem Agrees.readable_iff (h : s.Agrees a) (id : SegmentId) :
    s.Readable id ↔ ∃ g, a.segments id = some g ∧ (g.state = .active ∨ g.state = .sealed) := by
  constructor
  · intro hr
    obtain ⟨g, hg, -, -, hd, -⟩ := h.of_readable hr
    refine ⟨g, hg, ?_⟩
    rw [← hd.state]
    exact hr
  · rintro ⟨g, hg, hstate⟩
    obtain ⟨e, he, -, hd, -⟩ := (hg ▸ h.segment id).of_account
    rw [readable_of_entry he, Entry.state, hd.state]
    exact hstate

/-- Writing through changes the tiers of one entry. -/
theorem ChangedAt.writeThrough (he : s.entries.get? id = some e) :
    ChangedAt s (s.writeThrough id).1 id { e with metadata := { e.metadata with
      attributes := (e.metadata.attributes.writeThrough s.store id e.name).1 } } := by
  have hm := ChangedAt.modifyEntry he fun e' => { e' with metadata := { e'.metadata with
    attributes := (e.metadata.attributes.writeThrough s.store id e.name).1 } }
  simp only [Engine.writeThrough, he]
  exact ⟨hm.entries, fun j hj x => AttributeTiers.writeThrough_get?_of_ne _ _ hj _ x, rfl⟩

/-- The store is the one that the tiers of the segment are written through to. -/
theorem writeThrough_store (he : s.entries.get? id = some e) : (s.writeThrough id).1.store =
    (e.metadata.attributes.writeThrough s.store id e.name).2.1 := by
  simp only [Engine.writeThrough, he]

/-- Where there is no entry nothing is written through. -/
theorem writeThrough_of_none (he : s.entries.get? id = none) : (s.writeThrough id).1 = s := by
  simp only [Engine.writeThrough, he]

/-- What does not wait for the store does not come to wait by a write-through. -/
theorem unstored_writeThrough (j : SegmentId) {x : AttributeId}
    (hx : (s.entry id).metadata.attributes.unstored.get? x = none) :
    ((s.writeThrough j).1.entry id).metadata.attributes.unstored.get? x = none := by
  cases he : s.entries.get? j with
  | none => rwa [writeThrough_of_none he]
  | some e =>
    have hchanged := ChangedAt.writeThrough he
    by_cases hid : id = j
    · subst hid
      rw [entry_eq he] at hx
      rw [entry_eq hchanged.get?_self]
      exact (AttributeTiers.precedes_writeThrough _ _ _ _).unstored
        (AttributeTiers.epoch_writeThrough _ _ _ _) x hx
    · rw [entry, hchanged.entries, if_neg hid]
      exact hx

/-- A write-through of one segment keeps the stored values of another, or stores all that waited. -/
theorem Agrees.deposits_writeThrough (h : s.Agrees a) (hw : a.WellFormed) (j id : SegmentId) :
    s.Deposits (s.writeThrough j).1 id := by
  cases he : s.entries.get? j with
  | none => exact .of_store (by rw [writeThrough_of_none he])
  | some e =>
    have hchanged := ChangedAt.writeThrough he
    by_cases hid : id = j
    · subst hid
      have hstore := writeThrough_store he
      rcases AttributeTiers.writeThrough_cases e.metadata.attributes s.store id e.name with
        ⟨-, hsame⟩ | ⟨hempty, -, hget⟩
      · exact .of_store (hstore.trans hsame)
      · by_cases hr : s.Readable id
        · refine .stores ?_ fun x => ?_
          · rw [readable_of_entry he] at hr
            rwa [readable_of_entry hchanged.get?_self]
          · rw [entry_eq hchanged.get?_self, hempty]
            exact Table.get?_empty x
        · refine .of_get? fun x => ?_
          rw [hstore, hget, if_pos rfl, h.unstored_of_not_readable hw he hr x]
          rfl
    · exact .of_get? (hchanged.store id hid)

/-- So do those of several segments, and what does not wait does not come to wait. -/
theorem Sound.deposits_writeAllThrough (h : s.Sound rs rest found) (ids : List SegmentId)
    (id : SegmentId) : s.Deposits (s.writeAllThrough ids).1 id ∧
      ∀ x, (s.entry id).metadata.attributes.unstored.get? x = none →
        ((s.writeAllThrough ids).1.entry id).metadata.attributes.unstored.get? x = none := by
  induction ids generalizing s with
  | nil => exact ⟨.of_store rfl, fun _ hx => hx⟩
  | cons j ids ih =>
    have hfirst := h.agrees.deposits_writeThrough h.wellFormed j id
    have hsound := (h.writeThrough j).sound
    have hall := (hsound.writeAllThrough ids).sound
    obtain ⟨hrest, hclear⟩ := ih hsound
    refine ⟨hfirst.trans hrest ?_ hclear, fun x hx => hclear x (unstored_writeThrough j hx)⟩
    exact (hall.agrees.readable_iff id).trans (hsound.agrees.readable_iff id).symm

/-- A shutdown keeps stored values or stores all that waited. -/
theorem Sound.deposits_shutdown (h : s.Sound rs rest found) (id : SegmentId) :
    s.Deposits s.shutdown.1 id := by
  cases hc : s.closed with
  | true =>
    simp only [Engine.shutdown, hc, ↓reduceIte]
    exact .of_store rfl
  | false =>
    rw [shutdown_fst s hc]
    have hclosed := (h.same { s with closed := true } rfl rfl rfl rfl h.holds).1
    have hwritten := (hclosed.deposits_writeAllThrough (s.liveEntries.map Entry.id) id).1
    exact Deposits.trans (hwritten.after_store rfl) (.of_store rfl) Iff.rfl fun _ hx => hx

end Engine

namespace Traffic

variable {t : Traffic} {rs : List Record} {rest : Bytes} {id : SegmentId} {e : Entry}
  {found : SegmentId → AttributeId → AttributeValue}

/-- What one move does to the stored values of a segment. -/
theorem Sound.deposits (h : t.Sound rs rest found) (m : Move)
    (he : t.engine.entries.get? id = some e) : t.engine.Deposits (t.step m).engine id := by
  cases m with
  | submit request timeout =>
    cases ha : t.engine.accept request timeout with
    | error e => exact .of_store (by simp only [Traffic.step, ha])
    | ok accepted =>
      obtain ⟨-, -, -, pending, hpending⟩ := Engine.accept_eq_ok ha
      exact .of_store (by simp only [Traffic.step, ha, hpending])
  | advance i =>
    cases ho : t.operations[i]? with
    | none => exact .of_store (by simp only [Traffic.step, ho])
    | some o =>
      have hgone := h.engine.deposits_goes he (t.engine.advancePhase_goes o)
      have hsettled := hgone.alike (.settle _ { o with phase := (t.engine.advancePhase o).2.1 })
      simp only [Traffic.step, ho]
      exact hsettled
  | pause i => exact .of_store (t.pause_alike i).store
  | abandon i error =>
    cases ho : t.operations[i]? with
    | none => exact .of_store (by simp only [Traffic.step, ho])
    | some o =>
      refine .of_store ?_
      simp only [Traffic.step, ho]
      split
      · rfl
      · exact (Engine.Alike.abandon t.engine o error).store
  | evict name =>
    refine .of_store ?_
    simp only [Traffic.step, withEngine, Engine.evict]
    cases t.engine.resolve name <;> rfl
  | trim segment max => exact .of_store rfl
  | writeThrough segment =>
    exact h.engine.agrees.deposits_writeThrough h.engine.wellFormed segment id
  | refuse refusing => exact .keeps fun x => rfl
  | tick clock => exact .of_store rfl
  | crashAfter threshold => exact .of_store rfl
  | failFlush fail => exact .of_store rfl
  | close reader => exact .of_store rfl
  | shutdown => exact h.engine.deposits_shutdown id

end Traffic

end Segments
