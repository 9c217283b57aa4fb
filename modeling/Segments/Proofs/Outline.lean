import Segments.Proofs.Commit
import Segments.Proofs.Consistency

/-!
# Outlines of segments

What is left of a segment when attributes and evictions are put aside is its outline: the name, the
stage of life, the lengths and the bytes. No attribute value has a part in it, so what a record does
to the outlines is the same over every attribute store. An account outlines an engine that resembles
one that agrees with it.
-/

namespace Segments

/-- The metadata without the attributes and the count of evictions. -/
def Metadata.outline (m : Metadata) : Metadata :=
  { m with attributes := .empty, evictionEpoch := 0 }

namespace Entry

/-- The outline of a segment with its bytes. -/
def outline (e : Entry) : Metadata × Bytes := (e.metadata.outline, e.data)

/-- Entries with the same outline. -/
def Resembles (e e' : Entry) : Prop := e'.outline = e.outline

namespace Resembles

variable {e e' : Entry}

theorem refl (e : Entry) : e.Resembles e := rfl

theorem symm (h : e.Resembles e') : e'.Resembles e := Eq.symm h

/-- Entries with one outline have the same bytes. -/
theorem data (h : e.Resembles e') : e'.data = e.data := congrArg Prod.snd h

/-- Whatever does not look at attributes and evictions agrees. -/
theorem of_metadata (h : e.Resembles e') {β : Type} (f : Metadata → β)
    (hf : ∀ m, f m.outline = f m) : f e'.metadata = f e.metadata := by
  have houtline : e'.metadata.outline = e.metadata.outline := congrArg Prod.fst h
  rw [← hf, houtline, hf]

/-- They have the same number. -/
theorem id (h : e.Resembles e') : e'.metadata.id = e.metadata.id :=
  h.of_metadata Metadata.id fun _ => rfl

/-- They are at the same stage of life. -/
theorem state (h : e.Resembles e') : e'.metadata.state = e.metadata.state :=
  h.of_metadata Metadata.state fun _ => rfl

/-- They show the same account. -/
theorem depicts (h : e.Resembles e') {g : SegmentAccount} (hd : e.Depicts g) : e'.Depicts g where
  name := (h.of_metadata Metadata.name fun _ => rfl).trans hd.name
  state := h.state.trans hd.state
  mergedInto := (h.of_metadata Metadata.mergedInto fun _ => rfl).trans hd.mergedInto
  length := (h.of_metadata Metadata.length fun _ => rfl).trans hd.length
  truncationOffset :=
    (h.of_metadata Metadata.truncationOffset fun _ => rfl).trans hd.truncationOffset
  data := h.data.trans hd.data

/-- A change that reads nothing but the outline keeps the resemblance. -/
theorem change (h : e.Resembles e') (metadata : Metadata → Metadata) (data : Bytes → Bytes)
    (hm : ∀ m, (metadata m.outline).outline = (metadata m).outline) {c c' : Entry}
    (hc : c.outline = ((metadata e.metadata).outline, data e.data))
    (hc' : c'.outline = ((metadata e'.metadata).outline, data e'.data)) : c.Resembles c' := by
  have hmetadata := h.of_metadata (fun m => (metadata m).outline) hm
  rw [Resembles, hc, hc', hmetadata, h.data]

end Resembles

/-- Entries that are alike have one outline. -/
theorem Alike.resembles {e e' : Entry} (h : e.Alike e') : e.Resembles e' :=
  Prod.ext (h.of_metadata Metadata.outline fun _ => rfl) h.data

end Entry

namespace Engine

/-- Engines whose entries have the same outlines, with the same names. -/
structure Resembles (s s' : Engine) : Prop where
  /-- The outlines agree. -/
  entries : ∀ id, (s'.entries.get? id).map Entry.outline = (s.entries.get? id).map Entry.outline
  /-- The names agree. -/
  names : s'.names = s.names
  /-- The next numbers agree. -/
  nextId : s'.nextId = s.nextId

namespace Resembles

variable {s s' s'' : Engine} {id : SegmentId}

/-- Stores with the same entries, names and next number have one outline. -/
theorem of_entries (hentries : s'.entries = s.entries) (hnames : s'.names = s.names)
    (hnext : s'.nextId = s.nextId) : s.Resembles s' :=
  ⟨fun id => by rw [hentries], hnames, hnext⟩

theorem refl (s : Engine) : s.Resembles s := of_entries rfl rfl rfl

theorem symm (h : s.Resembles s') : s'.Resembles s :=
  ⟨fun id => (h.entries id).symm, h.names.symm, h.nextId.symm⟩

theorem trans (h : s.Resembles s') (h' : s'.Resembles s'') : s.Resembles s'' :=
  ⟨fun id => (h'.entries id).trans (h.entries id), h'.names.trans h.names,
    h'.nextId.trans h.nextId⟩

/-- An entry has one that resembles it. -/
theorem of_entry (h : s.Resembles s') {e : Entry} (he : s.entries.get? id = some e) :
    ∃ e', s'.entries.get? id = some e' ∧ e.Resembles e' := by
  have hentry := h.entries id
  rw [he, Option.map_some] at hentry
  exact Option.map_eq_some_iff.mp hentry

/-- They lack the same segments. -/
theorem noEntry (h : s.Resembles s') (he : s.entries.get? id = none) :
    s'.entries.get? id = none := by
  have hentry := h.entries id
  rwa [he, Option.map_none, Option.map_eq_none_iff] at hentry

/-- The entries of one segment have one outline. -/
theorem entry (h : s.Resembles s') (id : SegmentId) : (s.entry id).Resembles (s'.entry id) := by
  unfold Engine.entry
  cases he : s.entries.get? id with
  | none =>
    rw [h.noEntry he]
    exact .refl _
  | some e =>
    obtain ⟨e', he', hr⟩ := h.of_entry he
    rw [he']
    exact hr

/-- The entries of one number change into ones that resemble each other. -/
theorem modifyEntry (h : s.Resembles s') (id : SegmentId) {f : Entry → Entry}
    (hf : ∀ e e', e.Resembles e' → (f e).Resembles (f e')) :
    (s.modifyEntry id f).Resembles (s'.modifyEntry id f) := by
  refine ⟨fun j => ?_, h.names, h.nextId⟩
  simp only [Engine.modifyEntry, Table.get?_modify]
  split
  · cases he : s.entries.get? j with
    | none => rw [h.noEntry he]
    | some e =>
      obtain ⟨e', he', hr⟩ := h.of_entry he
      rw [he']
      exact congrArg some (hf e e' hr)
  · exact h.entries j

/-- Entries that resemble each other are put in place. -/
theorem insertEntry (h : s.Resembles s') (id : SegmentId) {e e' : Entry} (he : e.Resembles e')
    (j : SegmentId) : ((s'.entries.insert id e').get? j).map Entry.outline =
      ((s.entries.insert id e).get? j).map Entry.outline := by
  simp only [Table.get?_insert]
  split
  · exact congrArg some he
  · exact h.entries j

/-- One entry changes into one that resembles it. -/
theorem of_modifyEntry (s : Engine) (id : SegmentId) {f : Entry → Entry}
    (hf : ∀ e, s.entries.get? id = some e → e.Resembles (f e)) :
    s.Resembles (s.modifyEntry id f) := by
  refine ⟨fun j => ?_, rfl, rfl⟩
  simp only [Engine.modifyEntry, Table.get?_modify]
  split
  · next hj =>
    rw [hj]
    cases he : s.entries.get? id with
    | none => rfl
    | some e => exact congrArg some (hf e he)
  · rfl

/-- Applying attribute values changes no outline. -/
theorem applyAttributes (s : Engine) (id : SegmentId) (values : AttributeValues) :
    s.Resembles (s.applyAttributes id values).1 :=
  have hentries := of_modifyEntry s id (f := fun e => { e with metadata := { e.metadata with
    attributes := ((s.entry id).metadata.attributes.apply s.store id (s.entry id).name
      s.config.maxCachedAttributes values).1 } }) fun _ _ => rfl
  ⟨hentries.entries, rfl, rfl⟩

/-- Dropping stored values changes no outline. -/
theorem dropStored (s : Engine) (id : SegmentId) (name : String) :
    s.Resembles (s.dropStored id name).1 := by
  rw [dropStored_fst]
  exact of_entries rfl rfl rfl

/-- A record does the same to the outlines of engines that resemble each other. -/
theorem enact (h : s.Resembles s') (callerName : String) (record : Record) :
    (s.enact callerName record).1.Resembles (s'.enact callerName record).1 := by
  cases record with
  | create id name values =>
    exact ⟨h.insertEntry id rfl, congrArg (Table.insert · name id) h.names, rfl⟩
  | append id offset data values =>
    have hgrown := h.modifyEntry id
      (f := fun e => { e with
        data := e.data ++ data
        metadata := { e.metadata with length := e.metadata.length + data.length } })
      fun e e' he => he.change (fun m => { m with length := m.length + data.length }) (· ++ data)
        (fun _ => rfl) rfl rfl
    have happlied := ((applyAttributes _ id values).symm.trans hgrown).trans
      (applyAttributes _ id values)
    exact happlied.modifyEntry id fun _ _ he => he
  | updateAttributes id values =>
    exact ((applyAttributes s id values).symm.trans h).trans (applyAttributes s' id values)
  | sealing id length =>
    exact h.modifyEntry id fun _ _ he => he.change (fun m => { m with state := .sealed })
      (fun bytes => bytes) (fun _ => rfl) rfl rfl
  | merge target source sourceLength offset =>
    let grown (e : Entry) : Entry := { e with
      data := e.data ++ (s.entry source).data.take sourceLength
      metadata := { e.metadata with length := e.metadata.length + sourceLength } }.publish
    have hgrown := h.modifyEntry target (f := grown) fun e e' he =>
      he.change (fun m => { m with length := m.length + sourceLength })
        (· ++ (s.entry source).data.take sourceLength) (fun _ => rfl) rfl rfl
    have hended := hgrown.modifyEntry source
      (f := fun e => (ended e .merged (some target)).publish) fun e e' he => he.change
        (fun m => { m with state := .merged, mergedInto := some target }) (fun _ => [])
        (fun _ => rfl) rfl rfl
    simp only [Engine.enact, (h.entry source).data]
    exact ((dropStored _ _ _).symm.trans hended).trans (dropStored _ _ _)
  | truncate id offset =>
    exact h.modifyEntry id fun _ _ he => he.change
      (fun m => { m with truncationOffset := offset }) (fun bytes => bytes) (fun _ => rfl) rfl rfl
  | delete id =>
    have hended := h.modifyEntry id
      (f := fun e => (ended e .deleted e.metadata.mergedInto).publish) fun e e' he =>
      he.change (fun m => { m with state := .deleted }) (fun _ => []) (fun _ => rfl) rfl rfl
    have hnamed : Resembles
        { s.modifyEntry id (fun e => (ended e .deleted e.metadata.mergedInto).publish) with
          names := s.names.erase callerName }
        { s'.modifyEntry id (fun e => (ended e .deleted e.metadata.mergedInto).publish) with
          names := s'.names.erase callerName } :=
      ⟨hended.entries, congrArg (Table.erase · callerName) h.names, h.nextId⟩
    exact ((dropStored _ _ _).symm.trans hnamed).trans (dropStored _ _ _)

end Resembles

/-- Stores that are alike have one outline. -/
theorem Alike.resembles {s s' : Engine} (h : s.Alike s') : s.Resembles s' := by
  refine ⟨fun id => ?_, h.names, h.nextId⟩
  cases he : s.entries.get? id with
  | none => rw [h.noEntry id he]
  | some e =>
    obtain ⟨e', he', halike⟩ := h.entry id e he
    rw [he']
    exact congrArg some halike.resembles

/-- Attributes put aside, what an engine has is what an account says. -/
def Outlines (s : Engine) (a : Account) : Prop := ∃ t : Engine, t.Agrees a ∧ t.Resembles s

variable {s s' : Engine} {a : Account} {id : SegmentId} {e : Entry} {g : SegmentAccount}

/-- A store that agrees with an account has its outline. -/
theorem Agrees.outlines (h : s.Agrees a) : s.Outlines a := ⟨s, h, .refl s⟩

namespace Outlines

/-- What has the outline of an account passes it on. -/
theorem resembles (h : s.Outlines a) (hr : s.Resembles s') : s'.Outlines a := by
  obtain ⟨t, ht, hts⟩ := h
  exact ⟨t, ht, hts.trans hr⟩

/-- Names are those of the account. -/
theorem names (h : s.Outlines a) (n : String) : s.names.get? n = a.names n := by
  obtain ⟨t, ht, hts⟩ := h
  rw [hts.names, ht.names]

/-- So is the next number. -/
theorem nextId (h : s.Outlines a) : s.nextId = a.nextId := by
  obtain ⟨t, ht, hts⟩ := h
  rw [hts.nextId, ht.nextId]

/-- Numbers of entries were given out. -/
theorem numbered (h : s.Outlines a) (he : s.entries.get? id = some e) : id < s.nextId := by
  obtain ⟨t, ht, hts⟩ := h
  obtain ⟨e', he', -⟩ := hts.symm.of_entry he
  exact hts.nextId ▸ ht.numbered id e' he'

/-- An entry bears its number, and shows what the account says, unless it was deleted. -/
theorem of_entry (h : s.Outlines a) (he : s.entries.get? id = some e) :
    e.metadata.id = id ∧ ((e.metadata.state = .deleted ∧ a.segments id = none) ∨
      ∃ g, a.segments id = some g ∧ e.Depicts g) := by
  obtain ⟨t, ht, hts⟩ := h
  obtain ⟨e', he', hr⟩ := hts.symm.of_entry he
  have hshows := ht.segment id
  rw [he'] at hshows
  generalize a.segments id = g? at hshows ⊢
  cases hshows with
  | gone own deleted unstored =>
    exact ⟨hr.id.symm.trans own, Or.inl ⟨hr.state.symm.trans deleted, rfl⟩⟩
  | present own depicts carries =>
    exact ⟨hr.id.symm.trans own, Or.inr ⟨_, rfl, hr.symm.depicts depicts⟩⟩

/-- A segment with an account has an entry. -/
theorem of_account (h : s.Outlines a) (hg : a.segments id = some g) :
    ∃ e, s.entries.get? id = some e ∧ e.metadata.id = id ∧ e.Depicts g := by
  obtain ⟨t, ht, hts⟩ := h
  obtain ⟨e', he', hown, hd, -⟩ := (hg ▸ ht.segment id).of_account
  obtain ⟨e, he, hr⟩ := hts.of_entry he'
  exact ⟨e, he, hr.id.trans hown, hr.depicts hd⟩

/-- A segment that was not deleted has an account. -/
theorem of_live (h : s.Outlines a) (hl : s.live? id = some e) :
    ∃ g, a.segments id = some g ∧ s.entries.get? id = some e ∧ e.metadata.id = id ∧
      e.Depicts g := by
  unfold live? at hl
  split at hl
  · next he =>
    split at hl
    · cases hl
    · next hlive =>
      obtain rfl := Option.some.inj hl
      obtain ⟨hown, ⟨hd, -⟩ | ⟨g, hg, hd⟩⟩ := h.of_entry he
      · exact absurd hd hlive
      · exact ⟨g, hg, he, hown, hd⟩
  · cases hl

/-- A segment with an account is live. -/
theorem live (h : s.Outlines a) (hw : a.WellFormed) (hg : a.segments id = some g) :
    ∃ e, s.live? id = some e ∧ s.entries.get? id = some e ∧ e.metadata.id = id ∧ e.Depicts g := by
  obtain ⟨e, he, hown, hd⟩ := h.of_account hg
  have hlive : e.state ≠ .deleted := by
    rw [Entry.state, hd.state]
    exact (hw.segment id g hg).state_ne_deleted
  exact ⟨e, by simp only [live?, he, hlive, ↓reduceIte], he, hown, hd⟩

/-- A segment that can be read has an account. -/
theorem of_readable (h : s.Outlines a)
    (hs : (s.entry id).state = .active ∨ (s.entry id).state = .sealed) :
    ∃ g, a.segments id = some g ∧ (s.entry id).metadata.id = id ∧ (s.entry id).Depicts g := by
  obtain ⟨t, ht, hts⟩ := h
  have hr := hts.entry id
  have hreadable : (t.entry id).state = .active ∨ (t.entry id).state = .sealed := by
    rw [Entry.state, ← hr.state]
    exact hs
  obtain ⟨g, hg, -, hown, hd, -⟩ := ht.of_readable hreadable
  exact ⟨g, hg, hr.id.trans hown, hr.depicts hd⟩

/-- What is proposed can come next. -/
theorem admits (h : s.Outlines a) (hw : a.WellFormed) {action : Action} {record : Record}
    (hp : s.Proposes action record) : a.Admits record :=
  hp.admits hw h.names h.nextId fun _ => h.of_readable

/-- Applying what was proposed does to the outlines what it does to the account. -/
theorem enact (h : s.Outlines a) (hw : a.WellFormed) {callerName : String} {record : Record}
    (hr : a.Admits record) (hdelete : ∀ id, record = .delete id → a.names callerName = some id) :
    (s.enact callerName record).1.Outlines (a.apply record) := by
  obtain ⟨t, ht, hts⟩ := h
  exact ⟨_, (ht.enact hw hr hdelete).agrees, hts.enact callerName record⟩

/-- Names and entries of an engine that is outlined by a well-formed account fit together. -/
theorem consistent (h : s.Outlines a) (hw : a.WellFormed) : Consistent s.entries s.names where
  injective n n' id hn hn' := by
    rw [h.names] at hn hn'
    obtain ⟨g, hg, rfl⟩ := hw.name n id hn
    obtain ⟨g', hg', rfl⟩ := hw.name n' id hn'
    rw [Option.some.inj (hg.symm.trans hg')]
  named n id hn := by
    rw [h.names] at hn
    obtain ⟨g, hg, rfl⟩ := hw.name n id hn
    obtain ⟨e, he, -, hd⟩ := h.of_account hg
    refine ⟨e, he, ?_, hd.name⟩
    rw [hd.state]
    exact (hw.segment id g hg).state_ne_deleted
  numbered id e he := (h.of_entry he).1
  fits id e he hlive := by
    obtain ⟨-, ⟨hd, -⟩ | ⟨g, hg, hd⟩⟩ := h.of_entry he
    · exact absurd hd hlive
    have hg' := hw.segment id g hg
    refine ⟨?_, fun hm => ?_, ?_⟩
    · rw [hd.truncationOffset, hd.length]
      exact hg'.truncated
    · rw [hd.data, hd.length]
      exact hg'.sized (hd.state ▸ hm)
    · rw [hd.mergedInto, hd.state]
      exact hg'.merged

end Outlines

end Engine

end Segments
