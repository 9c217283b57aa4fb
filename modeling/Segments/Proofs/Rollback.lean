import Mathlib.Data.List.Induction
import Segments.Proofs.Acknowledged
import Segments.Proofs.Fidelity
import Segments.Proofs.Schedule

/-!
# A journal that falls behind the attribute store

A store is opened over an earlier part of its journal and all that its attribute store has. The
segments are those of the earlier moment, and so are the attributes that the records name. Other
extended attributes have whatever the attribute store was given later, and a segment that is
created next takes over what is stored under its number.
-/

namespace Segments

/-- What is left of a store opens to one that has the same values, was made by the same changes and
takes writes. -/
theorem AttributeStore.Made.openStore_contents {s : AttributeStore}
    {P : SegmentId → AttributeId → Prop} (h : s.Made P)
    (hP : ∀ id x, P id x → id < Bytes.capacity 8) :
    ∃ store events, s.contents.openStore = .ok (store, events) ∧ store.refusing = false ∧
      (∀ id x, store.get? id x = s.get? id x) ∧ store.Made P := by
  obtain ⟨changes, hall, hindex, hlog⟩ := h
  unfold contents
  cases hk : s.keeper with
  | volatile index =>
    have hsame : (ofIndex index).index = s.index := by
      rw [AttributeStore.index, AttributeStore.index, hk]
      rfl
    refine ⟨_, _, rfl, rfl, fun id x => ?_, changes, hall, hsame.trans hindex, fun l hl => ?_⟩
    · rw [get?, get?, hsame]
    · cases hl
  | logged l =>
    have hbytes : l.log = changes.flatMap IndexChange.encode := hlog l hk
    have hnothing : ([] : Bytes).length < IndexChange.size := by decide
    have hdecode :=
      IndexChange.decodeAll_flatMap (fun c hc => (hall c hc).writable hP) hnothing
    rw [List.append_nil, ← hbytes] at hdecode
    have hlength : l.log.length ≤ IndexChange.size * changes.length := by
      rw [hbytes, List.length_flatMap]
      simp only [IndexChange.length_encode, List.map_const', List.sum_replicate_nat]
      exact Nat.le_of_eq (Nat.mul_comm _ _)
    simp only [AttributeContents.openStore, IndexLog.openLog, hdecode,
      List.take_of_length_le hlength]
    refine ⟨_, _, rfl, rfl, fun id x => ?_, changes, hall, rfl, fun l' hl' => ?_⟩
    · rw [get?, get?, hindex]
      rfl
    · obtain rfl := AttributeKeeper.logged.inj hl'
      exact hbytes

namespace Replayed

variable {r r' : Replayed} {a : Account} {keys : List (SegmentId × AttributeId)}

/-- What is collected anew is among the values that are taken in. -/
theorem named_of_collect {extended : Table (SegmentId × AttributeId) AttributeValue}
    {id j : SegmentId} {values : AttributeValues} {x : AttributeId} {v : AttributeValue}
    (hv : (collect extended id values).get? (j, x) = some v) :
    (j, x) ∈ values.map (fun v : AttributeId × AttributeValue => (id, v.1)) ∨
      ∃ w, extended.get? (j, x) = some w := by
  rcases (exists_get?_collect extended id j values x).mp ⟨v, hv⟩ with hw | ⟨rfl, -, hx⟩
  · exact Or.inr hw
  · obtain ⟨u, hu, rfl⟩ := List.mem_map.mp hx
    exact Or.inl (List.mem_map.mpr ⟨u, hu, rfl⟩)

/-- What is collected anew is named by the record. -/
theorem Agrees.named_of_step (h : r.Agrees a keys) {record : Record}
    (hstep : r.step record = .ok r') {id : SegmentId} {x : AttributeId} {v : AttributeValue}
    (hv : r'.extended.get? (id, x) = some v) :
    (id, x) ∈ record.named ∨ ∃ w, r.extended.get? (id, x) = some w := by
  have hown : ∀ {j e}, r.entry j = .ok e → e.metadata.id = j := by
    intro j e he
    obtain ⟨hget, hlive⟩ := entry_eq_ok_iff.mp he
    obtain ⟨g, -, hid, -⟩ := (hget ▸ h.segment j).of_entry hlive
    exact hid
  have hreleased : ∀ {q : Replayed} {j}, (q.release j).extended.get? (id, x) = some v →
      q.extended.get? (id, x) = some v := by
    intro q j hq
    rw [get?_release] at hq
    split at hq
    · cases hq
    · exact hq
  cases record with
  | create j name values =>
    simp only [Replayed.step, Replayed.create] at hstep
    split at hstep
    · cases hstep
    · cases hstep
      exact named_of_collect hv
  | append j offset data values =>
    simp only [Replayed.step, Replayed.append] at hstep
    split at hstep
    · cases hstep
    next e he =>
    split at hstep
    case isFalse => cases hstep
    cases hstep
    obtain rfl := hown he
    exact named_of_collect hv
  | updateAttributes j values =>
    simp only [Replayed.step, Replayed.updateAttributes] at hstep
    split at hstep
    · cases hstep
    next e he =>
    cases hstep
    obtain rfl := hown he
    exact named_of_collect hv
  | sealing j length =>
    simp only [Replayed.step, Replayed.sealing] at hstep
    split at hstep
    · cases hstep
    split at hstep <;> cases hstep
    exact Or.inr ⟨v, hv⟩
  | merge target source sourceLength offset =>
    simp only [Replayed.step, Replayed.merge] at hstep
    split at hstep
    · cases hstep
    split at hstep
    · cases hstep
    · cases hstep
    split at hstep <;> cases hstep
    exact Or.inr ⟨v, hreleased hv⟩
  | truncate j offset =>
    simp only [Replayed.step, Replayed.truncate] at hstep
    split at hstep
    · cases hstep
    split at hstep <;> cases hstep
    exact Or.inr ⟨v, hv⟩
  | delete j =>
    simp only [Replayed.step, Replayed.delete] at hstep
    split at hstep <;> cases hstep
    exact Or.inr ⟨v, hreleased hv⟩

/-- What is collected over some records is named by one of them. -/
theorem Agrees.named_of_steps (h : r.Agrees a keys) (hw : a.WellFormed) {rs : List Record}
    (hrs : a.AdmitsAll rs) {offset : Nat} (hsteps : (r.steps (Scan.placed offset rs)).2 = .ok r')
    {id : SegmentId} {x : AttributeId} {v : AttributeValue}
    (hv : r'.extended.get? (id, x) = some v) :
    (id, x) ∈ rs.flatMap Record.named ∨ ∃ w, r.extended.get? (id, x) = some w := by
  induction rs generalizing r a keys offset with
  | nil =>
    cases hsteps
    exact Or.inr ⟨v, hv⟩
  | cons record rs ih =>
    obtain ⟨r₁, hstep, hsteps₁⟩ := steps_cons_eq_ok_iff.mp hsteps
    obtain ⟨r₂, hstep₂, h₁⟩ := h.step hw hrs.1
    obtain rfl := Except.ok.inj (hstep.symm.trans hstep₂)
    rw [List.flatMap_cons, List.mem_append]
    rcases ih h₁ (hw.apply hrs.1) hrs.2 hsteps₁ with hin | ⟨w, hw'⟩
    · exact Or.inl (Or.inr hin)
    · exact (h.named_of_step hstep hw').imp_left Or.inl

/-- A value that some record commits was collected with its last value. -/
theorem Agrees.extended_of_named (h : r.Agrees a keys) {id : SegmentId} {g : SegmentAccount}
    (hg : a.segments id = some g) (hm : g.state ≠ .merged) {x : AttributeId}
    (hx : x.isCore = false) (hin : (id, x) ∈ keys) :
    r.extended.get? (id, x) = some (g.attributes x) := by
  obtain ⟨g', -, -, hcollected⟩ := (h.covered (id, x) hin).resolve_left (h.not_released hg hm)
  obtain ⟨v, hv⟩ := hcollected hx
  obtain ⟨e, he, -, -, hc⟩ := (hg ▸ h.segment id).of_account
  have hbacked := (hc.coherent hm).backed x hx
  rw [(h.plain id e he).unstored, Option.getD_none, shadow_value, hv, Option.getD_some] at hbacked
  rw [hv, hbacked]

end Replayed

namespace Engine

/-- The value of an attribute of a segment when extended attributes that no record names are looked
up in some attribute store. -/
def valueOver (s : Engine) (left : AttributeStore) (e : Entry) (x : AttributeId) :
    AttributeValue :=
  if x.isCore ∨ (e.id, x) ∈ s.log.records.flatMap Record.named then s.valueOf e x
  else left.value e.id x

/-- A store that looks like an earlier one, but for what some attribute store has of extended
attributes that no record of the earlier one names. -/
structure RollsBack (s earlier : Engine) (left : AttributeStore) : Prop where
  /-- It was not shut down. -/
  isOpen : s.closed = false
  /-- Each name stands for the same segment. -/
  names : ∀ n, s.names.get? n = earlier.names.get? n
  /-- The next segment gets the same number. -/
  nextId : s.nextId = earlier.nextId
  /-- Each segment is there in both or in neither, with the same properties and bytes. -/
  segments : ∀ id, (s.live? id).map Entry.view = (earlier.live? id).map Entry.view
  /-- Look-ups find the values of records, and what the attribute store has of all others. -/
  answers : ∀ name ids cache, s.answerOf name ids cache =
    .finished (earlier.answerBy (earlier.valueOver left) name ids)
  /-- A segment that is created next begins with what the attribute store has under its number. -/
  created : ∀ name updates answer, (s.execute (.create name updates)).2.2 = .ok answer →
    ∃ values, Batch.evaluate (left.valuesOf s.nextId) updates = .ok values ∧ ∀ ids cache,
      (s.execute (.create name updates)).1.answerOf name ids cache =
        .finished (.ok (.attributes (ids.eraseDups.map fun x =>
          (x, overlaid (left.valuesOf s.nextId) (s.withCreationTime values) x))))

/-- A store that was opened over some records and an attribute store: what it has stored are the
values of the records, and what the attribute store had of all others. -/
structure Opened (s : Engine) (rs : List Record) (left : AttributeStore) : Prop where
  /-- It was not shut down. -/
  isOpen : s.closed = false
  /-- With nothing else in its attribute store it agrees with the account. -/
  agrees : ∃ store, ({ s with store } : Engine).Agrees (.after rs)
  /-- Nothing extended is in memory. -/
  plain : ∀ id e, s.entries.get? id = some e → Replayed.Plain e
  /-- Stored are the values of records, and what was stored of all others. -/
  stored : ∀ id g, (Account.after rs).segments id = some g → g.state ≠ .merged →
    ∀ x, x.isCore = false → s.store.value id x =
      if (id, x) ∈ rs.flatMap Record.named then g.attributes x else left.value id x
  /-- Of segments to come all is stored that was. -/
  fresh : ∀ id, s.nextId ≤ id → ∀ x, s.store.value id x = left.value id x

variable {s earlier : Engine} {rs more : List Record} {rest rest' : Bytes} {left : AttributeStore}

/-- Opening a store over the frames of records that can come one after another, and torn bytes. -/
theorem exists_opened (hframable : ∀ r ∈ rs, r.Framable) (hadmits : Account.start.AdmitsAll rs)
    (hrest : Frame.Torn rest) (htaking : left.refusing = false) (config : Config)
    (clock : AttributeValue) :
    ∃ s, (Engine.openStore config (Frame.wholes rs ++ rest) left clock).result = .ok s ∧
      s.Opened rs left := by
  obtain ⟨r, store, repairs, n, reports, hr, h, hrec, hopening⟩ :=
    openStore_replayed hframable hadmits hrest htaking config clock
  obtain ⟨store₁, repairs₁, n₁, hrec₁, -, hvalue, hget, -⟩ :=
    left.reconcile_of_taking htaking r fun id x v hv => (h.collected id x v hv).2.1
  obtain ⟨rfl, -⟩ := Prod.mk.inj (hrec.symm.trans hrec₁)
  obtain ⟨store₀, -, -, -, hagrees, -⟩ := h.reopened
    (show AttributeStore.empty.refusing = false from rfl) (fun id x v hv => by cases hv) config
    (Frame.wholes rs) clock
  have hentries := get?_ofReplayed config (Frame.wholes rs) store clock r
  rw [hopening]
  refine ⟨_, rfl, rfl, ⟨store₀, hagrees⟩, fun id e he => ?_, fun id g hg hm x hx => ?_,
    fun id hid x => ?_⟩
  · rw [hentries] at he
    obtain ⟨e', he', rfl⟩ := Option.map_eq_some_iff.mp he
    exact ⟨(h.plain id e' he').extended, (h.plain id e' he').unstored⟩
  · change store.value id x = _
    rw [hvalue id x (h.not_released hg hm)]
    split
    · next hin => rw [h.extended_of_named hg hm hx hin, Option.getD_some]
    · next hout =>
      cases hv : r.extended.get? (id, x) with
      | none => rfl
      | some v =>
        rcases Replayed.agrees_start.named_of_steps Account.wellFormed_start hadmits hr hv
          with hin | ⟨w, hnone⟩
        · exact absurd hin hout
        · cases hnone
  · obtain ⟨hcollected, hreleased⟩ := h.nothing_of_le hid
    exact congrArg (Option.getD · nullValue) (hget id x (hcollected x) hreleased)

theorem Opened.congr (h : s.Opened rs left) {left' : AttributeStore}
    (hvalue : ∀ id x, left.value id x = left'.value id x) : s.Opened rs left' where
  isOpen := h.isOpen
  agrees := h.agrees
  plain := h.plain
  stored id g hg hm x hx := by rw [h.stored id g hg hm x hx, hvalue]
  fresh id hid x := (h.fresh id hid x).trans (hvalue id x)

/-- What is in the store is what is there with another attribute store. -/
theorem Opened.view (h : s.Opened rs left) (he : earlier.Agrees (.after rs))
    (hw : (Account.after rs).WellFormed) (id : SegmentId) :
    (s.live? id).map Entry.view = (earlier.live? id).map Entry.view := by
  obtain ⟨store, hagrees⟩ := h.agrees
  exact (hagrees.view hw id).trans (he.view hw id).symm

/-- A segment of which memory has nothing extended has the values of records, and what the attribute
store has of all others. -/
theorem Opened.coherent (h : s.Opened rs left) {id : SegmentId} {e : Entry} {g : SegmentAccount}
    (he : s.entries.get? id = some e) (hg : (Account.after rs).segments id = some g)
    (hm : g.state ≠ .merged) :
    e.metadata.attributes.Coherent s.store id fun x =>
      if x.isCore ∨ (id, x) ∈ rs.flatMap Record.named then g.attributes x else left.value id x := by
  obtain ⟨store, hagrees⟩ := h.agrees
  obtain ⟨e', he', -, -, hc⟩ := (hg ▸ hagrees.segment id).of_account
  obtain rfl := Option.some.inj (he'.symm.trans he)
  have hcoherent := hc.coherent hm
  have hplain := h.plain id e' he
  refine ⟨fun x hx => ?_, fun x v hx hv => ?_, fun x hx => ?_, hcoherent.unstored_core⟩
  · simp only [hx, true_or, ↓reduceIte]
    exact hcoherent.core x hx
  · rw [hplain.uncached x hx] at hv
    cases hv
  · rw [hplain.unstored, Option.getD_none, h.stored id g hg hm x hx]
    simp only [hx, Bool.false_eq_true, false_or]

theorem Opened.answerOf (h : s.Opened rs left) (he : earlier.Agrees (.after rs))
    (hw : (Account.after rs).WellFormed) (hrecords : earlier.log.records = rs) (name : String)
    (ids : List AttributeId) (cache : Bool) :
    s.answerOf name ids cache = .finished (earlier.answerBy (earlier.valueOver left) name ids) := by
  obtain ⟨store, hagrees⟩ := h.agrees
  cases hn : (Account.after rs).names name with
  | none =>
    have hr : s.resolve name = .error (.segmentNotFound name) := hagrees.resolve_of_noName hn
    rw [answerOf_of_coherent h.isOpen (fun _ => noValues) (fun e he => by rw [hr] at he; cases he),
      answerBy, hr, answerBy, he.resolve_of_noName hn]
  | some id =>
    obtain ⟨e, g, hr, hg, hget, hown, hd, -⟩ := hagrees.resolve_of_name hw hn
    replace hr : s.resolve name = .ok e := hr
    obtain ⟨e', g', hr', hg', -, hown', hd', hc'⟩ := he.resolve_of_name hw hn
    obtain rfl := Option.some.inj (hg.symm.trans hg')
    have hread : e.state.requireReadable e.name = e'.state.requireReadable e'.name := by
      rw [Entry.state, Entry.name, hd.state, hd.name, Entry.state, Entry.name, hd'.state, hd'.name]
    -- both segments are the one of the account, so both look-ups are answered from it
    rw [answerOf_of_coherent h.isOpen (fun _ x =>
      if x.isCore ∨ (id, x) ∈ rs.flatMap Record.named then g.attributes x
      else left.value id x) fun e₁ hr₁ hread₁ => ?_]
    · simp only [answerBy, hr, hr', hread]
      cases hread' : e'.state.requireReadable e'.name with
      | error err => rfl
      | ok u =>
        have hm : g.state ≠ .merged := hd'.state ▸ SegmentState.ne_merged_of_readable hread'
        have hvalue : ∀ x, earlier.valueOf e' x = g.attributes x := by
          intro x
          rw [valueOf, Entry.id, hown']
          exact (hc'.coherent hm).value_eq x
        simp only [valueOver, hrecords, Entry.id, hown', hvalue]
    · obtain rfl := Except.ok.inj (hr.symm.trans hr₁)
      have hm : g.state ≠ .merged := hd.state ▸ SegmentState.ne_merged_of_readable hread₁
      rw [Entry.id, hown]
      exact ⟨hget, h.coherent hget hg hm⟩

/-- On an open store a segment that is created has the values of its record, and what is stored
under its number of all others. -/
theorem answerOf_enact_create (hopen : s.closed = false) (callerName : String) (id : SegmentId)
    (name : String) (values : AttributeValues) (ids : List AttributeId) (cache : Bool) :
    (s.enact callerName (.create id name values)).1.answerOf name ids cache =
      .finished (.ok (.attributes (ids.eraseDups.map fun x =>
        (x, overlaid (s.store.valuesOf id) values x)))) := by
  let tiers := AttributeTiers.empty.apply s.store id name s.config.maxCachedAttributes values
  let e : Entry := .ofMetadata
    { Metadata.new id name with state := .active, attributes := tiers.1 }
  let s' := (s.enact callerName (.create id name values)).1
  have hget : s'.entries.get? id = some e := by
    change (s.entries.insert id e).get? id = some e
    rw [Table.get?_insert, if_pos rfl]
  have hname : s'.names.get? name = some id := by
    change (s.names.insert name id).get? name = some id
    rw [Table.get?_insert, if_pos rfl]
  have hlive : s'.live? id = some e := by
    simp only [live?, hget]
    rfl
  have hr : s'.resolve name = .ok e := by
    simp only [resolve, resolve?, hname, hlive]
  rw [answerOf_of_coherent (s := s') hopen
    (fun _ => overlaid (s.store.valuesOf id) values) fun e' hr' _ => ?_]
  · simp only [answerBy, hr]
    rfl
  · obtain rfl := Except.ok.inj (hr.symm.trans hr')
    exact ⟨hget, (AttributeTiers.coherent_valuesOf s.store id).apply name _ values⟩

/-- A creation is decided on by what is stored under the next number. -/
theorem answerOf_execute_create (hopen : s.closed = false) {name : String} {updates : List Update}
    {answer : Answer} (hok : (s.execute (.create name updates)).2.2 = .ok answer) :
    ∃ values, Batch.evaluate (s.store.valuesOf s.nextId) updates = .ok values ∧ ∀ ids cache,
      (s.execute (.create name updates)).1.answerOf name ids cache =
        .finished (.ok (.attributes (ids.eraseDups.map fun x =>
          (x, overlaid (s.store.valuesOf s.nextId) (s.withCreationTime values) x)))) := by
  have hvalues : s.valueOf (.ofMetadata (.new s.nextId name)) = s.store.valuesOf s.nextId :=
    funext (AttributeTiers.coherent_valuesOf s.store s.nextId).value_eq
  have hdecided :
      s.propose (.create name updates) = s.proposeCreate s.evaluation name updates := rfl
  unfold proposeCreate at hdecided
  simp only [evaluation, Engine.evaluate] at hdecided
  rw [hvalues] at hdecided
  split at hdecided
  · simp only [Engine.execute_eq, hdecided] at hok
    cases hok
  cases hv : Batch.evaluate (s.store.valuesOf s.nextId) updates with
  | error failure =>
    simp only [Engine.execute_eq, hdecided, hv] at hok
    cases hok
  | ok values =>
    refine ⟨values, rfl, fun ids cache => ?_⟩
    simp only [Engine.execute_eq, hdecided, hv, Verdict.ofCheck] at hok ⊢
    split at hok
    · cases hok
    next log n happend =>
    exact answerOf_enact_create (s := { s with log }) hopen "" s.nextId name _ ids cache

theorem Opened.rollsBack (h : s.Opened rs left) (he : earlier.Agrees (.after rs))
    (hw : (Account.after rs).WellFormed) (hrecords : earlier.log.records = rs) :
    s.RollsBack earlier left := by
  obtain ⟨store, hagrees⟩ := h.agrees
  have hstored : s.store.valuesOf s.nextId = left.valuesOf s.nextId := by
    funext x
    rw [AttributeStore.valuesOf, AttributeStore.valuesOf, h.fresh _ (Nat.le_refl _)]
  refine ⟨h.isOpen, fun n => (hagrees.names n).trans (he.names n).symm,
    hagrees.nextId.trans he.nextId.symm, h.view he hw, h.answerOf he hw hrecords,
    fun name updates answer hok => ?_⟩
  rw [← hstored]
  exact answerOf_execute_create h.isOpen hok

/-- A store is opened over an earlier part of its journal and all that its attribute store has. -/
theorem Sound.openStore_rollsBack {last : Engine} (he : earlier.Sound rs rest)
    (hrecords : earlier.log.records = rs) (hl : last.Sound (rs ++ more) rest')
    (ht : last.Tidy (Record.Storable (rs ++ more))) (config : Config) (clock : AttributeValue) :
    ∃ s, (Contents.openStore ⟨last.log.bytes.take (Frame.wholes rs).length, last.store.contents⟩
      config clock).2.2 = .ok s ∧ s.RollsBack earlier last.store := by
  obtain ⟨left, events, hopen, htaking, hsame, -⟩ :=
    ht.made.openStore_contents fun _ _ hx => hx.2.1
  have hjournal : last.log.bytes.take (Frame.wholes rs).length = Frame.wholes rs := by
    rw [hl.holds.bytes, Frame.wholes_append, List.append_assoc, List.take_left]
  obtain ⟨s, hs, hopened⟩ :=
    exists_opened he.holds.framable he.admitted Frame.torn_nil htaking config clock
  rw [List.append_nil] at hs
  have hvalue : ∀ id x, left.value id x = last.store.value id x := fun id x =>
    congrArg (Option.getD · nullValue) (hsame id x)
  refine ⟨s, ?_, (hopened.congr hvalue).rollsBack he.agrees he.wellFormed hrecords⟩
  rw [hjournal]
  simp only [Contents.openStore, hopen]
  exact hs

end Engine

namespace Traffic

variable (config : Config) (logged : Bool) (clock : AttributeValue) {moves : List Move}

/-- A move commits one record at most. -/
theorem Commits.length_le {t : Traffic} {m : Move} {new : List Record} (h : t.Commits m new) :
    new.length ≤ 1 := by
  cases h.acknowledges with
  | nothing idle => exact Nat.zero_le 1
  | change acknowledges alike proposes => exact Nat.le_refl 1

/-- Unless flushes fail, a run is sound for the records of its journal. -/
theorem sound_run (hmoves : .failFlush true ∉ moves) :
    ∃ rest, ((start config logged clock).run moves).Sound
        ((start config logged clock).run moves).engine.log.records rest ∧
      ((start config logged clock).run moves).engine.log.Flushed rest ∧
      ((start config logged clock).run moves).engine.Tidy
        (Record.Storable ((start config logged clock).run moves).engine.log.records) := by
  obtain ⟨rs, rest, hsound, hflushed, htidy⟩ := (sound_start config logged clock).run moves
  have hf := hflushed hmoves (flushed_start config logged clock)
  rw [hsound.engine.holds.records hf]
  exact ⟨rest, hsound, hf, htidy (tidy_start config logged clock _)⟩

/-- The journal of a run only grows. -/
theorem records_run_append {more : List Move} (hmoves : .failFlush true ∉ moves ++ more) :
    ((start config logged clock).run moves).engine.log.records <+:
      ((start config logged clock).run (moves ++ more)).engine.log.records := by
  obtain ⟨hfront, hback⟩ := not_or.mp (List.mem_append.not.mp hmoves)
  obtain ⟨rest, hsound, hf, -⟩ := sound_run config logged clock hfront
  obtain ⟨new, rest', hsound', hflushed, -⟩ := hsound.run more
  rw [run_append, hsound'.engine.holds.records (hflushed hback hf)]
  exact List.prefix_append _ _

/-- Each boundary between the records of a run is where the journal ended at some moment. -/
theorem exists_run_of_le (hmoves : .failFlush true ∉ moves) {k : Nat}
    (hk : k ≤ ((start config logged clock).run moves).engine.log.records.length) :
    ∃ before after, moves = before ++ after ∧
      ((start config logged clock).run before).engine.log.records.length = k := by
  induction moves using List.reverseRecOn with
  | nil =>
    have hnone : ((start config logged clock).run []).engine.log.records = [] :=
      (sound_start config logged clock).engine.holds.records (flushed_start config logged clock)
    rw [hnone] at hk
    exact ⟨[], [], rfl, by rw [hnone, Nat.le_zero.mp hk, List.length_nil]⟩
  | append_singleton moves m ih =>
    obtain ⟨hfront, hlast⟩ := not_or.mp (List.mem_append.not.mp hmoves)
    by_cases hle : k ≤ ((start config logged clock).run moves).engine.log.records.length
    · obtain ⟨before, after, rfl, hlength⟩ := ih hfront hle
      exact ⟨before, after ++ [m], List.append_assoc _ _ _, hlength⟩
    · -- the last move has brought the record that ends at the boundary
      obtain ⟨rest, hsound, hf, -⟩ := sound_run config logged clock hfront
      obtain ⟨new, rest', hstep⟩ := hsound.step m
      have hone := hstep.commits.length_le
      have hrecords : ((start config logged clock).run (moves ++ [m])).engine.log.records =
          ((start config logged clock).run moves).engine.log.records ++ new := by
        rw [run_append]
        exact hstep.sound.engine.holds.records
          (hstep.flushed (fun hm => hlast (List.mem_singleton.mpr hm.symm)) hf)
      refine ⟨moves ++ [m], [], (List.append_nil _).symm, ?_⟩
      rw [hrecords, List.length_append] at hk ⊢
      omega

/-- A store is opened over the journal of a run as it was at some moment, and all that the attribute
store has at the end. -/
theorem openStore_run_append {after : List Move} (hmoves : .failFlush true ∉ moves ++ after)
    (config' : Config) (clock' : AttributeValue) :
    let earlier := ((start config logged clock).run moves).engine
    let last := ((start config logged clock).run (moves ++ after)).engine
    ∃ s, (Contents.openStore ⟨last.log.bytes.take (Frame.wholes earlier.log.records).length,
      last.store.contents⟩ config' clock').2.2 = .ok s ∧ s.RollsBack earlier last.store := by
  intro earlier last
  obtain ⟨more, hmore⟩ := records_run_append config logged clock hmoves
  obtain ⟨rest, hearlier, -, -⟩ :=
    sound_run config logged clock fun hin => hmoves (List.mem_append_left after hin)
  obtain ⟨rest', hlast, -, htidy⟩ := sound_run config logged clock hmoves
  rw [← hmore] at hlast htidy
  exact hearlier.engine.openStore_rollsBack rfl hlast.engine htidy config' clock'

/-- Whatever has happened to a store, and wherever between two records its journal is cut, a store
that is opened over it and all that the attribute store has looks like the one that had written
these records, but for what the attribute store has of attributes that they do not name. -/
theorem openStore_of_cut (config config' : Config) (logged : Bool)
    (clock clock' : AttributeValue) (moves : List Move) (hmoves : .failFlush true ∉ moves) (k : Nat)
    (hk : k ≤ ((start config logged clock).run moves).engine.log.records.length) :
    let last := ((start config logged clock).run moves).engine
    (∃ before after, moves = before ++ after ∧
      ((start config logged clock).run before).engine.log.records.length = k) ∧
    ∃ s, (Contents.openStore ⟨last.log.bytes.take (Frame.wholes (last.log.records.take k)).length,
        last.store.contents⟩ config' clock').2.2 = .ok s ∧
      ∀ before after, moves = before ++ after →
        ((start config logged clock).run before).engine.log.records.length = k →
          s.RollsBack ((start config logged clock).run before).engine last.store := by
  intro last
  have hexists := exists_run_of_le config logged clock hmoves hk
  -- what is left of the records by the cut is what there was at each moment with so many of them
  have hkept : ∀ before after, moves = before ++ after →
      ((start config logged clock).run before).engine.log.records.length = k →
        ((start config logged clock).run before).engine.log.records =
          last.log.records.take k := by
    rintro before after rfl hlength
    rw [← hlength]
    exact List.prefix_iff_eq_take.mp (records_run_append config logged clock hmoves)
  refine ⟨hexists, ?_⟩
  obtain ⟨before, after, rfl, hlength⟩ := hexists
  obtain ⟨s, hs, -⟩ := openStore_run_append config logged clock hmoves config' clock'
  rw [hkept before after rfl hlength] at hs
  refine ⟨s, hs, fun before' after' hsplit hlength' => ?_⟩
  obtain ⟨s', hs', hrolls⟩ :=
    openStore_run_append config logged clock (hsplit ▸ hmoves) config' clock'
  rw [hkept before' after' hsplit hlength', ← hsplit] at hs'
  obtain rfl := Except.ok.inj (hs.symm.trans hs')
  rwa [← hsplit] at hrolls

/-- A segment is created. -/
def earlyMoves : List Move := [.submit (.create "a" []) 1, .advance 0]

/-- It gets an attribute value, and another segment is created with one. -/
def lateMoves : List Move :=
  [.submit (.update "a" [.replace ⟨0, 7⟩ 5]) 1, .advance 1,
    .submit (.create "b" [.replace ⟨0, 7⟩ 9]) 1, .advance 2]

theorem records_early : ((start .standard true 0).run earlyMoves).engine.log.records =
    [.create 1 "a" [(.creationTime, 0)]] := by
  let r : Record := .create 1 "a" [(.creationTime, 0)]
  have hlog : ((start .standard true 0).run earlyMoves).engine.log =
      ((OperationLog.ofBytes [] true).append r).1 := rfl
  have hsafe : (OperationLog.ofBytes [] true).Safe := ⟨rfl, rfl, rfl⟩
  obtain ⟨n, hok⟩ := hsafe.append_eq_ok (r := r) ⟨by decide, by decide⟩
  rw [hlog]
  rcases (OperationLog.holds_ofBytes_nil true).append r with ⟨-, -, hholds, hflushed⟩ | ⟨e, he, -⟩
  · exact hholds.records (hflushed (OperationLog.flushed_ofBytes_nil true))
  · rw [hok] at he
    cases he

/-- With the attribute store of later, the first segment has the value of the update. -/
theorem answerBy_early :
    let earlier := ((start .standard true 0).run earlyMoves).engine
    let left := ((start .standard true 0).run (earlyMoves ++ lateMoves)).engine.store
    earlier.answerBy (earlier.valueOver left) "a" [⟨0, 7⟩] =
      .ok (.attributes [(⟨0, 7⟩, 5)]) := by
  intro earlier left
  have hr : earlier.resolve "a" = .ok (earlier.entry 1) := rfl
  have hread : (earlier.entry 1).state.requireReadable (earlier.entry 1).name = .ok () := rfl
  have hvalue : earlier.valueOver left (earlier.entry 1) ⟨0, 7⟩ = 5 := by
    rw [Engine.valueOver, records_early, if_neg (by decide +kernel)]
    decide +kernel
  simp only [Engine.answerBy, hr, hread]
  rw [show ([⟨0, 7⟩] : List AttributeId).eraseDups = [⟨0, 7⟩] from rfl, List.map_singleton, hvalue]

/-- The journal is cut after the creation of the first segment: it has the value of the update that
was lost, and a segment that is created next has the value of the one that was lost. -/
theorem openStore_of_cut_of_update :
    let last := ((start .standard true 0).run (earlyMoves ++ lateMoves)).engine
    ∃ s, (Contents.openStore ⟨last.log.bytes.take (Frame.wholes (last.log.records.take 1)).length,
        last.store.contents⟩ .standard 1).2.2 = .ok s ∧
      s.answerOf "a" [⟨0, 7⟩] true = .finished (.ok (.attributes [(⟨0, 7⟩, 5)])) ∧
      ∀ answer, (s.execute (.create "c" [])).2.2 = .ok answer →
        (s.execute (.create "c" [])).1.answerOf "c" [⟨0, 7⟩] true =
          .finished (.ok (.attributes [(⟨0, 7⟩, 9)])) := by
  intro last
  have hmoves : .failFlush true ∉ earlyMoves ++ lateMoves := by simp [earlyMoves, lateMoves]
  have hk : 1 ≤ last.log.records.length := by
    have hprefix := records_run_append .standard true 0 hmoves
    rw [records_early] at hprefix
    exact hprefix.length_le
  obtain ⟨-, s, hs, hback⟩ := openStore_of_cut .standard .standard true 0 1 _ hmoves 1 hk
  have hrolls := hback earlyMoves lateMoves rfl (by rw [records_early]; rfl)
  refine ⟨s, hs, ?_, fun answer hok => ?_⟩
  · rw [hrolls.answers, answerBy_early]
  · obtain ⟨values, hvalues, hanswer⟩ := hrolls.created "c" [] answer hok
    obtain rfl := Except.ok.inj hvalues
    have hnext : s.nextId = 2 := hrolls.nextId.trans (by decide +kernel)
    have hvalue : overlaid (last.store.valuesOf 2) (s.withCreationTime []) ⟨0, 7⟩ = 9 := by
      change Function.update (last.store.valuesOf 2) .creationTime s.clock ⟨0, 7⟩ = 9
      rw [Function.update_of_ne (by decide)]
      decide +kernel
    rw [hanswer, hnext, show ([⟨0, 7⟩] : List AttributeId).eraseDups = [⟨0, 7⟩] from rfl,
      List.map_singleton, hvalue]

/-- The journal is cut after the creation of the first segment, and it has the value of the update
that was lost: the store does not look like the one of that moment. -/
theorem openStore_of_update_lost :
    let earlier := ((start .standard true 0).run earlyMoves).engine
    let last := ((start .standard true 0).run (earlyMoves ++ lateMoves)).engine
    ∃ s, (Contents.openStore ⟨last.log.bytes.take (Frame.wholes earlier.log.records).length,
      last.store.contents⟩ .standard 1).2.2 = .ok s ∧ ¬s.SameView earlier := by
  intro earlier last
  have hmoves : .failFlush true ∉ earlyMoves ++ lateMoves := by simp [earlyMoves, lateMoves]
  obtain ⟨s, hs, hrolls⟩ := openStore_run_append .standard true 0 hmoves .standard 1
  refine ⟨s, hs, fun hsame => ?_⟩
  have hnone : earlier.answerOf "a" [⟨0, 7⟩] true =
      .finished (.ok (.attributes [(⟨0, 7⟩, nullValue)])) := rfl
  have hanswers := hsame.answers hrolls.isOpen rfl "a" [⟨0, 7⟩] true
  rw [hrolls.answers, answerBy_early, hnone] at hanswers
  cases hanswers

end Traffic

end Segments
