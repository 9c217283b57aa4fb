import Segments.Proofs.Deposits
import Segments.Proofs.Failure
import Segments.Proofs.History

/-!
# A store that was shut down

Once a store is shut down nothing is committed any more. Every operation that is looked at finds the
store closed before it could make a change, so that no step of an operation writes to the journal or
to the attribute store; and whatever else happens to the store, its names and its segments stay what
they were, `Remains`. Shutting down offers every unstored attribute value to the attribute store. If
that takes them, none is left, and none comes in again.
-/

namespace Segments

namespace Engine

/-- No segment has attribute values that the attribute store has yet to take. -/
def Emptied (s : Engine) : Prop :=
  ∀ id e, s.entries.get? id = some e → e.state ≠ .deleted →
    e.metadata.attributes.unstored.isEmpty = true

/-- What stays of a store that was shut down, whatever happens to it. -/
structure Remains (s s' : Engine) : Prop where
  /-- It stays shut down. -/
  closed : s'.closed = s.closed
  /-- The names stay, and the segments but for their attributes in memory. -/
  resembles : s.Resembles s'
  /-- The bytes of the journal stay. -/
  journal : s'.log.bytes = s.log.bytes
  /-- No attribute values come to wait for the attribute store. -/
  emptied : s.Emptied → s'.Emptied

variable {s s' s'' : Engine} {o : Operation} {phase : Phase} {a : Account}

/-- Nothing is counted that waits for the store. -/
theorem Emptied.unstoredCount (h : s.Emptied) : s.unstoredCount = 0 := by
  refine List.length_eq_zero_iff.mpr (List.filter_eq_nil_iff.mpr fun e he => ?_)
  obtain ⟨hvalue, hlive⟩ := List.mem_filter.mp he
  obtain ⟨⟨id, e'⟩, hentry, rfl⟩ := List.mem_map.mp hvalue
  have hempty := h id e' (s.entries.get?_eq_some_iff_mem.mpr hentry) (by simpa using hlive)
  simpa using hempty

namespace Remains

theorem refl (s : Engine) : s.Remains s := ⟨rfl, .refl s, rfl, fun h => h⟩

theorem trans (h : s.Remains s') (h' : s'.Remains s'') : s.Remains s'' :=
  ⟨h'.closed.trans h.closed, h.resembles.trans h'.resembles, h'.journal.trans h.journal,
    fun he => h'.emptied (h.emptied he)⟩

/-- An engine with the same entries. -/
theorem of_entries (hclosed : s'.closed = s.closed) (hentries : s'.entries = s.entries)
    (hnames : s'.names = s.names) (hnext : s'.nextId = s.nextId)
    (hjournal : s'.log.bytes = s.log.bytes) : s.Remains s' :=
  ⟨hclosed, .of_entries hentries hnames hnext, hjournal, fun h id e he => h id e (hentries ▸ he)⟩

/-- The attributes in memory of one entry change, and no more of them wait for the store. -/
theorem modifyEntry (s : Engine) (id : SegmentId) {f : Entry → Entry}
    (hf : ∀ e, s.entries.get? id = some e → e.Resembles (f e))
    (hempty : ∀ e, s.entries.get? id = some e → e.metadata.attributes.unstored.isEmpty = true →
      (f e).metadata.attributes.unstored.isEmpty = true) : s.Remains (s.modifyEntry id f) := by
  refine ⟨rfl, .of_modifyEntry s id hf, rfl, fun h j e' he' hlive => ?_⟩
  rw [Engine.modifyEntry, Table.get?_modify] at he'
  split at he'
  · next hj =>
    obtain ⟨e, he, rfl⟩ := Option.map_eq_some_iff.mp he'
    subst hj
    rw [Entry.state, (hf e he).state] at hlive
    exact hempty e he (h j e he hlive)
  · exact h j e' he' hlive

/-- Trimming leaves what stays. -/
theorem trim (s : Engine) (id : SegmentId) (max : Nat) : s.Remains (s.trim id max) :=
  modifyEntry s id (fun _ _ => rfl) fun _ _ h => h

/-- So does evicting. -/
theorem evict (h : s.Outlines a) (name : String) : s.Remains (s.evict name).1 := by
  have hresembles := (Rests.evict h name).resembles
  revert hresembles
  unfold Engine.evict
  cases hr : s.resolve name with
  | error e => exact fun _ => refl s
  | ok e =>
    refine fun hresembles => ⟨rfl, hresembles, rfl, fun hs j e' he' hlive => ?_⟩
    obtain ⟨id, -, hl⟩ := resolve_eq_ok hr
    obtain ⟨g, -, he, rfl, -⟩ := h.of_live hl
    change (s.entries.insert e.metadata.id _).get? j = some e' at he'
    rw [Table.get?_insert] at he'
    split at he'
    · obtain rfl := Option.some.inj he'
      exact hs e.metadata.id e he hlive
    · exact hs j e' he' hlive

/-- So does writing through. -/
theorem writeThrough (s : Engine) (id : SegmentId) : s.Remains (s.writeThrough id).1 := by
  unfold Engine.writeThrough
  cases he : s.entries.get? id with
  | none => exact refl s
  | some e =>
    have hmodified := modifyEntry s id (f := fun e' => { e' with metadata := { e'.metadata with
      attributes := (e.metadata.attributes.writeThrough s.store id e.name).1 } })
      (fun _ _ => rfl) fun e' he' hempty => by
        obtain rfl := Option.some.inj (he.symm.trans he')
        rcases AttributeTiers.writeThrough_cases e.metadata.attributes s.store id e.name with
          ⟨ht, -⟩ | ⟨ht, -⟩
        · simp only [ht, hempty]
        · simp only [ht]
          rfl
    exact ⟨rfl, ⟨hmodified.resembles.entries, rfl, rfl⟩, rfl, hmodified.emptied⟩

end Remains

/-- So does whatever leaves a store alike. -/
theorem Alike.remains (h : s.Alike s') : s.Remains s' := by
  refine ⟨h.closed, h.resembles, by rw [h.log], fun hs id e' he' hlive => ?_⟩
  cases he : s.entries.get? id with
  | none =>
    rw [h.noEntry id he] at he'
    cases he'
  | some e =>
    obtain ⟨c, hc, halike⟩ := h.entry id e he
    obtain rfl := Option.some.inj (hc.symm.trans he')
    rw [halike.attributes.unstored]
    refine hs id e he ?_
    rwa [Entry.state, ← halike.state]

/-! ## Shutting down -/

/-- A store that takes writes takes what waits of one segment. -/
theorem writeThrough_of_taking (hr : s.store.refusing = false) (id : SegmentId) :
    (s.writeThrough id).1.store.refusing = false ∧
      ∀ e, (s.writeThrough id).1.entries.get? id = some e →
        e.metadata.attributes.unstored.isEmpty = true := by
  cases he : s.entries.get? id with
  | none =>
    rw [writeThrough_of_none he]
    exact ⟨hr, fun e he' => by rw [he] at he'; cases he'⟩
  | some e =>
    rw [writeThrough_store he]
    have hchanged := (ChangedAt.writeThrough he).get?_self
    suffices h : (e.metadata.attributes.writeThrough s.store id e.name).2.1.refusing = false ∧
        (e.metadata.attributes.writeThrough s.store id e.name).1.unstored.isEmpty = true by
      refine ⟨h.1, fun e' he' => ?_⟩
      obtain rfl := Option.some.inj (hchanged.symm.trans he')
      exact h.2
    unfold AttributeTiers.writeThrough
    split
    · next hempty => exact ⟨hr, hempty⟩
    · obtain ⟨store', hput, hr', -⟩ :=
        AttributeStore.put_of_taking hr id e.metadata.attributes.unstored.nodup
      rw [hput]
      exact ⟨hr', rfl⟩

/-- A store that takes writes takes what waits of some segments. -/
theorem writeAllThrough_of_taking (hr : s.store.refusing = false) (ids : List SegmentId) :
    ∀ id e, (s.writeAllThrough ids).1.entries.get? id = some e →
      (id ∈ ids ∨ ∀ e, s.entries.get? id = some e →
        e.metadata.attributes.unstored.isEmpty = true) →
      e.metadata.attributes.unstored.isEmpty = true := by
  induction ids generalizing s with
  | nil =>
    rintro id e he (hin | hempty)
    · cases hin
    · exact hempty e he
  | cons j ids ih =>
    intro id e he hin
    obtain ⟨hr', htaken⟩ := writeThrough_of_taking hr j
    refine ih hr' id e he ?_
    by_cases hj : id = j
    · exact Or.inr (hj ▸ htaken)
    · rcases hin with hin | hempty
      · exact Or.inl ((List.mem_cons.mp hin).resolve_left hj)
      · right
        intro e' he'
        cases hbefore : s.entries.get? j with
        | none =>
          rw [writeThrough_of_none hbefore] at he'
          exact hempty e' he'
        | some c =>
          rw [(ChangedAt.writeThrough hbefore).entries, if_neg hj] at he'
          exact hempty e' he'

/-- An open store whose attribute store takes writes has nothing unstored once it is shut down. -/
theorem emptied_shutdown (h : s.Outlines a) (hopen : s.closed = false)
    (hr : s.store.refusing = false) : s.shutdown.1.Emptied := by
  rw [shutdown_fst s hopen]
  intro id e he hlive
  have hrests := Rests.writeAllThrough { s with closed := true } (s.liveEntries.map Entry.id)
  refine writeAllThrough_of_taking (s := { s with closed := true }) hr _ id e he (Or.inl ?_)
  -- whoever is live afterwards was live before, and is among those that are asked
  obtain ⟨c, hc, hresembles⟩ := hrests.resembles.symm.of_entry he
  refine List.mem_map.mpr ⟨c, List.mem_filter.mpr ⟨?_, ?_⟩, (h.of_entry hc).1⟩
  · exact List.mem_map.mpr ⟨(id, c), s.entries.get?_eq_some_iff_mem.mp hc, rfl⟩
  · rw [Entry.state, ← hresembles.state] at hlive
    exact decide_eq_true hlive

/-- A store that was shut down is closed. -/
theorem closed_shutdown (s : Engine) : s.shutdown.1.closed = true := by
  have hwritten : ∀ (s : Engine) ids, (s.writeAllThrough ids).1.closed = s.closed := by
    intro s ids
    induction ids generalizing s with
    | nil => rfl
    | cons id ids ih => exact (ih _).trans (Remains.writeThrough s id).closed
  cases hc : s.closed with
  | true => simp only [Engine.shutdown, hc, ↓reduceIte]
  | false =>
    rw [shutdown_fst s hc]
    exact hwritten { s with closed := true } _

/-! ## Operations on a closed store -/

/-- Whoever has come to the end of its turns finds the store closed. -/
theorem takeTurns_of_closed (hc : s.closed = true) (action : Action) (held : List Place)
    (wanted : List SegmentId) :
    (s.takeTurns action held wanted).2.1.isFinished = false ∨
      (s.takeTurns action held wanted).2.1 = .finished (.error .storeClosed) := by
  induction wanted generalizing s held with
  | nil =>
    have hclosed : s.requireOpen = .error .storeClosed := by
      simp only [requireOpen_eq, hc, ↓reduceIte]
    unfold takeTurns
    rw [hclosed]
    exact Or.inr rfl
  | cons id wanted ih =>
    unfold takeTurns
    simp only
    split
    · exact ih (s := s.modifyTurns id fun _ => (s.entry id).turns.arrive.1) hc _
    · exact Or.inl rfl

/-- An operation that would change a closed store goes on waiting or finds it closed. -/
theorem advance_of_closed (hc : s.closed = true) (hw : o.Writes)
    (hf : o.phase.isFinished = false) :
    (s.advance o).2.1.phase.isFinished = false ∨
      (s.advance o).2.1.phase = .finished (.error .storeClosed) := by
  obtain ⟨hchanges, hphases⟩ := hw
  cases hphase : o.phase with
  | accepted =>
    simp only [advance, advancePhase, hphase, begin_of_closed hc hchanges]
    exact Or.inr trivial
  | inLine action held place wanted =>
    simp only [advance, advancePhase, hphase]
    split
    · exact takeTurns_of_closed (s := s.modifyTurns place.segment fun l => l.takeUp place.ticket)
        hc action (place :: held) wanted
    · exact Or.inl rfl
  | fetching | fetched =>
    rw [hphase] at hphases
    exact hphases.elim
  | finished result =>
    rw [hphase] at hf
    cases hf

/-- No step of an operation changes a closed store. -/
theorem Goes.remains (h : Goes s o s' phase) (hc : s.closed = true) :
    s.Remains s' ∧ s'.log = s.log ∧ s'.store = s.store := by
  have alike : ∀ {s' : Engine}, s.Alike s' → s.Remains s' ∧ s'.log = s.log ∧ s'.store = s.store :=
    fun h => ⟨h.remains, h.log, h.store⟩
  cases h with
  | waits h | queues _ _ _ _ h | closes _ h | answers _ _ _ h => exact alike h
  | executes asked h isOpen after =>
    rw [h.closed, hc] at isOpen
    cases isOpen
  | @begins name e ids cache found readable quiet => exact alike (.touch s e.id ids)
  | reads | stays => exact alike (.refl s)
  | @ends id l cache values hphase =>
    unfold finishLookup
    simp only
    split
    · refine ⟨.modifyEntry s id (fun _ _ => rfl) fun e he hempty => ?_, rfl, rfl⟩
      simp only [(l.cacheFetched_same (s.entry id).metadata.attributes _ _ _ _ values).1]
      rwa [entry_eq he]
    · exact alike (.refl s)

end Engine

/-- Whether a stride is one of an operation. -/
def Stride.isStep : Stride → Bool
  | moved (.submit ..) | moved (.advance _) | moved (.pause _) | moved (.abandon ..) => true
  | _ => false

namespace Traffic

open Engine

variable {t : Traffic} {a : Account} {x : Stride}

/-- Strides on a closed store, and those of operations above all, change nothing that lasts. -/
theorem remains_stride (hs : t.engine.Outlines a) (hc : t.engine.closed = true)
    (hx : x.staysOpen = true) : t.engine.Remains (t.stride x).engine ∧
      (x.isStep = true → (t.stride x).engine.log = t.engine.log ∧
        (t.stride x).engine.store = t.engine.store) := by
  have alike : ∀ {t' : Traffic}, t.engine.Alike t'.engine → t.engine.Remains t'.engine ∧
      (x.isStep = true → t'.engine.log = t.engine.log ∧ t'.engine.store = t.engine.store) :=
    fun h => ⟨h.remains, fun _ => ⟨h.log, h.store⟩⟩
  cases x with
  | reopened config left clock => cases hx
  | moved m =>
    cases m with
    | submit request timeout =>
      simp only [stride, step]
      split
      · exact alike (.refl _)
      · next haccept =>
        obtain ⟨-, -, -, pending, rfl⟩ := accept_eq_ok haccept
        exact alike (.withPending t.engine pending)
    | advance i =>
      simp only [stride, step]
      cases ho : t.operations[i]? with
      | none => exact alike (.refl _)
      | some o =>
        obtain ⟨hremains, hlog, hstore⟩ := (advancePhase_goes t.engine o).remains hc
        have hsettled := Alike.settle (t.engine.advancePhase o).1 (t.engine.advance o).2.1
        exact ⟨hremains.trans hsettled.remains, fun _ => ⟨hsettled.log.trans hlog,
          hsettled.store.trans hstore⟩⟩
    | pause i => exact alike (t.pause_alike i)
    | abandon i error =>
      simp only [stride, step]
      cases ho : t.operations[i]? with
      | none => exact alike (.refl _)
      | some o =>
        simp only
        split
        · exact alike (.refl _)
        · exact alike (.abandon t.engine o error)
    | evict name => exact ⟨.evict hs name, fun h => by cases h⟩
    | trim segment max => exact ⟨.trim t.engine segment max, fun h => by cases h⟩
    | writeThrough segment => exact ⟨.writeThrough t.engine segment, fun h => by cases h⟩
    | close reader => exact alike (.closeReader t.engine reader)
    | shutdown =>
      have hsame : t.engine.shutdown.1 = t.engine := by
        simp only [Engine.shutdown, hc, ↓reduceIte]
      exact ⟨by simp only [stride, step, withEngine, hsame]; exact .refl _,
        fun h => by cases h⟩
    | refuse | tick | crashAfter | failFlush =>
      exact ⟨.of_entries rfl rfl rfl rfl rfl, fun h => by cases h⟩

end Traffic

end Segments
