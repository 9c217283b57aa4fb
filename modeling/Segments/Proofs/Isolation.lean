import Segments.Proofs.Deposits
import Segments.Proofs.Places

/-!
# Segments do not meet

Operations find their segments by name, and then work on them by number, in tables that all segments
share. A step of an operation leaves every segment alone but those that it is bound to: those that
its names stand for before it has looked them up, and from then on those that it has found. For a
segment to be left alone means here that its entry, its stored attribute values and its names are
what they were.
-/

namespace Segments

namespace Action

/-- The segments that a change is bound to; a creation is bound to the next number. -/
def bound (next : SegmentId) : Action → List SegmentId
  | create .. => [next]
  | append segment .. | update _ segment _ | sealing _ segment | truncate _ segment _
  | delete _ segment => [segment]
  | merge target source => [target, source]

/-- The segments that a change needs to be there. -/
def segments : Action → List SegmentId
  | create .. => []
  | action => action.bound 0

/-- Turns are taken at segments of the action. -/
theorem turns_subset (action : Action) : action.turns ⊆ action.segments := by
  intro id hid
  cases action with
  | append segment data updates expected =>
    cases expected with
    | none => cases hid
    | some offset => exact hid
  | merge target source =>
    simp only [turns] at hid
    split at hid
    · exact hid
    · simpa [segments, bound, or_comm] using hid
  | create name updates => cases hid
  | update name segment updates => cases hid
  | _ => exact hid

/-- Its segments are among those that it is bound to. -/
theorem segments_subset_bound (action : Action) (next : SegmentId) :
    action.segments ⊆ action.bound next := by
  cases action with
  | create name updates => exact List.nil_subset _
  | _ => exact List.Subset.refl _

/-- Who takes turns takes those of all its segments, and they are there already. -/
theorem turns_of_ne_nil {action : Action} (h : action.turns ≠ []) :
    action.segments ⊆ action.turns ∧ ∀ next, action.bound next = action.segments := by
  cases action with
  | append segment data updates expected =>
    cases expected with
    | none => exact absurd rfl h
    | some offset => exact ⟨List.Subset.refl _, fun _ => rfl⟩
  | merge target source =>
    refine ⟨fun id hid => ?_, fun _ => rfl⟩
    simp only [turns]
    split
    · exact hid
    · simpa [segments, bound, or_comm] using hid
  | create name updates => exact absurd rfl h
  | update name segment updates => exact absurd rfl h
  | _ => exact ⟨List.Subset.refl _, fun _ => rfl⟩

end Action

/-- The segments that a request is bound to before it has begun. -/
def Request.bound (s : Engine) : Request → List SegmentId
  | create .. => [s.nextId]
  | request => request.names.filterMap s.names.get?

/-- The segments that an operation is bound to that has looked them up. -/
def Phase.bound : Phase → List SegmentId
  | inLine action _ _ _ => action.segments
  | fetching segment _ _ | fetched segment _ _ _ => [segment]
  | accepted | finished _ => []

/-- The segments that an operation is bound to. -/
def Operation.bound (o : Operation) (s : Engine) : List SegmentId :=
  match o.phase with
  | .accepted => o.request.bound s
  | phase => phase.bound

namespace Engine

/-- A segment has the same in two stores. -/
structure SameAt (s s' : Engine) (id : SegmentId) : Prop where
  /-- The entry is the same, with all that is in it. -/
  entry : s'.entries.get? id = s.entries.get? id
  /-- The same attribute values are stored. -/
  store : ∀ x, s'.store.get? id x = s.store.get? id x
  /-- The same names stand for it. -/
  names : ∀ n, s'.names.get? n = some id ↔ s.names.get? n = some id

variable {s s' s'' : Engine} {a : Account} {id j : SegmentId} {action : Action}

namespace SameAt

theorem refl (s : Engine) (id : SegmentId) : s.SameAt s id := by
  constructor
  · rfl
  · intro x
    rfl
  · intro n
    rfl

theorem trans (h : s.SameAt s' id) (h' : s'.SameAt s'' id) : s.SameAt s'' id where
  entry := h'.entry.trans h.entry
  store x := (h'.store x).trans (h.store x)
  names n := (h'.names n).trans (h.names n)

/-- Two stores with the same entries, values and names have the same segments. -/
theorem of_eq (hentries : s'.entries = s.entries) (hstore : ∀ x, s'.store.get? id x =
    s.store.get? id x) (hnames : s'.names = s.names) : s.SameAt s' id := by
  constructor
  · rw [hentries]
  · exact hstore
  · intro n
    rw [hnames]

/-- Another entry is changed. -/
theorem modifyEntry (s : Engine) (f : Entry → Entry) (hj : id ≠ j) :
    s.SameAt (s.modifyEntry j f) id := by
  constructor
  · rw [Engine.modifyEntry, Table.get?_modify, if_neg hj]
  · intro x
    rfl
  · intro n
    rfl

/-- Touching attributes of another segment leaves this one. -/
theorem touch (s : Engine) (ids : List AttributeId) (hj : id ≠ j) :
    s.SameAt (s.touch j ids) id := modifyEntry s _ hj

/-- Values that are applied to another segment leave this one. -/
theorem applyAttributes (s : Engine) (values : AttributeValues) (hj : id ≠ j) :
    s.SameAt (s.applyAttributes j values).1 id := by
  constructor
  · simp only [Engine.applyAttributes, Engine.modifyEntry, Table.get?_modify, if_neg hj]
  · intro x
    exact AttributeTiers.apply_get?_of_ne (s.entry j).metadata.attributes s.store hj
      (s.entry j).name s.config.maxCachedAttributes values x
  · intro n
    rfl

/-- Dropping the stored values of another segment leaves this one. -/
theorem dropStored (s : Engine) (name : String) (hj : id ≠ j) :
    s.SameAt (s.dropStored j name).1 id := by
  rw [dropStored_fst]
  exact of_eq rfl (AttributeStore.get?_removeSegment_of_ne s.store hj) rfl

/-- The values of a segment depend on nothing else. -/
theorem valueOf (h : s.SameAt s' id) {e : Entry} (hown : e.id = id) (x : AttributeId) :
    s'.valueOf e x = s.valueOf e x := by
  rw [Engine.valueOf, Engine.valueOf, AttributeTiers.value, AttributeTiers.value, hown, h.store]

end SameAt

/-! ## Changes -/

/-- A new name for another segment leaves the names of a segment. -/
theorem get?_insert_iff {names : Table String SegmentId} {name : String}
    (hfree : names.get? name = none) (hj : id ≠ j) (n : String) :
    (names.insert name j).get? n = some id ↔ names.get? n = some id := by
  rw [Table.get?_insert]
  split
  · next hn =>
    rw [hn, hfree]
    constructor
    · intro h
      exact absurd (Option.some.inj h).symm hj
    · intro h
      cases h
  · rfl

/-- So does the end of a name that stands for another segment. -/
theorem get?_erase_iff {names : Table String SegmentId} {name : String}
    (hnamed : names.get? name = some j) (hj : id ≠ j) (n : String) :
    (names.erase name).get? n = some id ↔ names.get? n = some id := by
  rw [Table.get?_erase]
  split
  · next hn =>
    rw [hn, hnamed]
    constructor
    · intro h
      cases h
    · intro h
      exact absurd (Option.some.inj h).symm hj
  · rfl

/-- What an action consults is touched at the segments that it is bound to. -/
theorem sameAt_touchConsulted (s : Engine) (hid : id ∉ action.bound s.nextId) :
    s.SameAt (s.touchConsulted action) id := by
  unfold touchConsulted touchConsultedBy
  split
  · split
    · exact .touch s _ (List.ne_of_not_mem_cons hid)
    · exact .refl s id
  · split
    · exact .touch s _ (List.ne_of_not_mem_cons hid)
    · exact .refl s id
  · exact .refl s id

/-- An entry that is there bears its number. -/
theorem Outlines.id_entry (h : s.Outlines a) (hthere : ∃ e, s.entries.get? id = some e) :
    (s.entry id).id = id := by
  obtain ⟨e, he⟩ := hthere
  rw [entry_eq he]
  exact (h.of_entry he).1

/-- A record that a change proposes changes no segment but those of the change. -/
theorem Proposes.sameAt_enact {record : Record} (hp : s.Proposes action record)
    (hids : ∀ j ∈ action.segments, (s.entry j).id = j) (hid : id ∉ action.bound s.nextId)
    (hentries : s'.entries.get? id = s.entries.get? id) (hnames : s'.names = s.names)
    (hstore : s'.store = s.store) :
    s.SameAt (s'.enact action.callerName record).1 id := by
  have hsame : s.SameAt s' id := ⟨hentries, fun x => by rw [hstore], fun n => by rw [hnames]⟩
  refine hsame.trans ?_
  cases hp with
  | @create name updates values free evaluated =>
    have hj : id ≠ s.nextId := List.ne_of_not_mem_cons hid
    constructor
    · simp only [enact, Table.get?_insert, if_neg hj]
    · intro x
      exact AttributeTiers.apply_get?_of_ne .empty s'.store hj name
        s'.config.maxCachedAttributes _ x
    · intro n
      rw [← hnames] at free
      exact get?_insert_iff free hj n
  | @append segment data updates expected values active length evaluated =>
    rw [hids segment List.mem_cons_self]
    have hj : id ≠ segment := List.ne_of_not_mem_cons hid
    exact ((SameAt.modifyEntry s' _ hj).trans (.applyAttributes _ values hj)).trans
      (.modifyEntry _ _ hj)
  | @update name segment updates values active nonempty evaluated =>
    rw [hids segment List.mem_cons_self]
    exact .applyAttributes s' values (List.ne_of_not_mem_cons hid)
  | @sealing name segment active =>
    rw [hids segment List.mem_cons_self]
    exact .modifyEntry s' _ (List.ne_of_not_mem_cons hid)
  | @truncate name segment offset readable rises within =>
    rw [hids segment List.mem_cons_self]
    exact .modifyEntry s' _ (List.ne_of_not_mem_cons hid)
  | @delete name segment named live =>
    rw [hids segment List.mem_cons_self] at named ⊢
    have hj : id ≠ segment := List.ne_of_not_mem_cons hid
    rw [← hnames] at named
    refine ((SameAt.modifyEntry s' (fun e =>
      (ended e .deleted e.metadata.mergedInto).publish) hj).trans ?_).trans (.dropStored _ name hj)
    constructor
    · rfl
    · intro x
      rfl
    · exact get?_erase_iff named hj
  | @merge target source active sealed =>
    rw [hids target List.mem_cons_self, hids source (List.mem_cons_of_mem _ List.mem_cons_self)]
    have htarget : id ≠ target := List.ne_of_not_mem_cons hid
    have hsource : id ≠ source :=
      List.ne_of_not_mem_cons fun h => hid (List.mem_cons_of_mem _ h)
    exact ((SameAt.modifyEntry s' _ htarget).trans (.modifyEntry _ _ hsource)).trans
      (.dropStored _ _ hsource)

/-- A change leaves all segments alone but its own. -/
theorem Outlines.sameAt_execute (h : s.Outlines a)
    (hthere : ∀ j ∈ action.segments, ∃ e, s.entries.get? j = some e)
    (hid : id ∉ action.bound s.nextId) : s.SameAt (s.execute action).1 id := by
  have htouched := sameAt_touchConsulted s hid
  have halike := Alike.touchConsulted s action
  have hexecutes := s.executes action
  generalize (s.execute action).1 = s', (s.execute action).2.2 = result at hexecutes ⊢
  cases hexecutes with
  | refused proposed => exact htouched
  | idles proposed => exact htouched
  | fails proposed appended => exact htouched.trans (.of_eq rfl (fun _ => rfl) rfl)
  | commits proposed appended =>
    exact (proposes_iff.mpr ⟨_, proposed⟩).sameAt_enact
      (fun j hj => h.id_entry (hthere j hj)) hid htouched.entry halike.names halike.store

/-! ## Steps of an operation -/

/-- Leaving other lines leaves the segment. -/
theorem sameAt_leaveAll (s : Engine) {places : List Place} (hid : ∀ p ∈ places, p.segment ≠ id) :
    s.SameAt (s.leaveAll places) id := by
  induction places generalizing s with
  | nil => exact .refl s id
  | cons p places ih =>
    obtain ⟨hp, hplaces⟩ := List.forall_mem_cons.mp hid
    exact (SameAt.modifyEntry s _ hp.symm).trans (ih _ hplaces)

/-- An operation takes the turns of its segments and makes its change. -/
theorem Outlines.sameAt_takeTurns (h : s.Outlines a)
    (hthere : ∀ j ∈ action.segments, ∃ e, s.entries.get? j = some e)
    (hid : id ∉ action.bound s.nextId) {held : List Place} {wanted : List SegmentId}
    (hheld : ∀ p ∈ held, p.segment ≠ id) (hwanted : id ∉ wanted) :
    s.SameAt (s.takeTurns action held wanted).1 id := by
  induction wanted generalizing s held with
  | nil =>
    unfold takeTurns
    cases s.requireOpen with
    | error e => exact sameAt_leaveAll s hheld
    | ok u => exact (h.sameAt_execute hthere hid).trans (sameAt_leaveAll _ hheld)
  | cons j wanted ih =>
    rw [List.mem_cons, not_or] at hwanted
    obtain ⟨hj, hwanted⟩ := hwanted
    have halike := Alike.modifyTurns s j fun _ => (s.entry j).turns.arrive.1
    have hsame : s.SameAt (s.modifyTurns j fun _ => (s.entry j).turns.arrive.1) id :=
      .modifyEntry s _ hj
    unfold takeTurns
    simp only
    split
    · refine hsame.trans (ih (h.resembles halike.resembles) (fun k hk => ?_)
        (by rwa [halike.nextId]) (List.forall_mem_cons.mpr ⟨Ne.symm hj, hheld⟩) hwanted)
      obtain ⟨e, he⟩ := hthere k hk
      obtain ⟨e', he', -⟩ := halike.entry k e he
      exact ⟨e', he'⟩
    · exact hsame

/-- Coming to turns at other segments leaves this one. -/
theorem sameAt_comeTo (s : Engine) (action : Action) (held : List Place) (otherwise : Phase)
    {wanted : List SegmentId} (hwanted : id ∉ wanted) :
    s.SameAt (s.comeTo action held otherwise wanted).1 id := by
  cases wanted with
  | nil => exact .refl s id
  | cons j wanted => exact .modifyEntry s _ (List.ne_of_not_mem_cons hwanted)

/-- Opening a reader of another segment leaves this one. -/
theorem sameAt_openReader (h : s.Outlines a) {name : String} (offset maxLength : Nat)
    (hid : s.names.get? name ≠ some id) : s.SameAt (s.openReader name offset maxLength).1 id := by
  unfold openReader
  split
  · exact .refl s id
  · next e hr =>
    have hj : id ≠ e.id := by
      rintro rfl
      exact hid (h.of_resolve hr).1
    simp only
    split
    · exact .refl s id
    · split
      · exact .refl s id
      · split
        · exact .refl s id
        · exact .modifyEntry s _ hj

/-- What a check lets through is the same if what comes after it is. -/
theorem sameAt_ofCheck {α : Type} {check : Except SegmentError α}
    {next : α → Engine × Phase × List Event} (h : ∀ v, check = .ok v → s.SameAt (next v).1 id) :
    s.SameAt (Phase.ofCheck s check next).1 id := by
  cases check with
  | error e => exact .refl s id
  | ok v => exact h v rfl

/-- What a request asks for is bound to what the request is bound to, and that is there. -/
theorem Outlines.bound_of_action? (h : s.Outlines a) {request : Request}
    (ha : request.action? s = some action) :
    action.bound s.nextId ⊆ request.bound s ∧
      ∀ j ∈ action.segments, ∃ e, s.entries.get? j = some e := by
  have hone : ∀ {name e}, s.resolve? name = some e → [e.id] ⊆ [name].filterMap s.names.get? ∧
      ∀ j ∈ [e.id], ∃ e, s.entries.get? j = some e := by
    intro name e he
    obtain ⟨hn, hentry⟩ := h.of_resolve (resolve_of_resolve? he)
    constructor
    · simp [hn]
    · intro j hj
      exact ⟨e, List.mem_singleton.mp hj ▸ hentry⟩
  cases request with
  | create name updates =>
    obtain rfl := Option.some.inj ha
    exact ⟨List.Subset.refl _, List.forall_mem_nil _⟩
  | append name | appendAt name | update name | sealing name | delete name | truncate name =>
    obtain ⟨e, he, rfl⟩ := Option.map_eq_some_iff.mp ha
    exact hone he
  | merge target source =>
    rw [Request.action?] at ha
    split at ha
    · next t u ht hu =>
      obtain rfl := Option.some.inj ha
      obtain ⟨hnt, het⟩ := h.of_resolve (resolve_of_resolve? ht)
      obtain ⟨hnu, heu⟩ := h.of_resolve (resolve_of_resolve? hu)
      constructor
      · simp [Action.bound, Request.bound, Request.names, hnt, hnu]
      · exact List.forall_mem_cons.mpr
          ⟨⟨t, het⟩, List.forall_mem_cons.mpr ⟨⟨u, heu⟩, List.forall_mem_nil _⟩⟩
    · cases ha
  | lookup name ids cache => cases ha
  | read name offset maxLength => cases ha
  | info name wait => cases ha

/-- The first step of an operation leaves each segment that its request is not bound to. -/
theorem Outlines.sameAt_begin (h : s.Outlines a) (barrier : Nat) {request : Request}
    (hid : id ∉ request.bound s) : s.SameAt (s.begin barrier request).1 id := by
  cases hq : request.changes with
  | true =>
    rcases begin_of_changes s barrier hq with ⟨e, he⟩ | ⟨action, haction, he⟩
    · rw [he]
      exact .refl s id
    · obtain ⟨hbound, hthere⟩ := h.bound_of_action? haction
      rw [he]
      refine h.sameAt_takeTurns hthere (fun hin => hid (hbound hin)) nofun fun hin => hid ?_
      exact hbound (action.segments_subset_bound _ (action.turns_subset hin))
  | false =>
    cases request with
    | lookup name ids cache =>
      refine sameAt_ofCheck fun _ _ => sameAt_ofCheck fun e hr => sameAt_ofCheck fun _ _ => ?_
      have hj : id ≠ e.id := by
        rintro rfl
        exact hid (List.mem_filterMap.mpr ⟨name, List.mem_cons_self, (h.of_resolve hr).1⟩)
      simp only
      split
      · exact .touch s ids hj
      · exact .touch s ids hj
    | read name offset maxLength =>
      refine sameAt_ofCheck fun _ _ => sameAt_openReader h offset maxLength fun hn => hid ?_
      exact List.mem_filterMap.mpr ⟨name, List.mem_cons_self, hn⟩
    | info name wait =>
      simp only [begin, describe]
      split
      · exact .refl s id
      · exact .refl s id
    | _ => cases hq

/-- A look-up in another segment leaves this one. -/
theorem sameAt_finishLookup (s : Engine) (l : AttributeLookup) (cache : Bool)
    (values : AttributeValues) (hj : id ≠ j) :
    s.SameAt (s.finishLookup j l cache values).1 id := by
  unfold finishLookup
  simp only
  split
  · exact .modifyEntry s _ hj
  · exact .refl s id

/-- Settling an operation leaves every segment. -/
theorem sameAt_settle (s : Engine) (o : Operation) : s.SameAt (s.settle o) id := by
  unfold settle
  split
  · exact .of_eq rfl (fun _ => rfl) rfl
  · exact .refl s id

/-! ## What is done without an operation -/

/-- Writing the values of another segment through leaves this one. -/
theorem sameAt_writeThrough (s : Engine) (hj : id ≠ j) : s.SameAt (s.writeThrough j).1 id := by
  cases he : s.entries.get? j with
  | none =>
    rw [writeThrough_of_none he]
    exact .refl s id
  | some e =>
    have hchanged := ChangedAt.writeThrough he
    have hnames : (s.writeThrough j).1.names = s.names := by
      simp only [writeThrough, he, modifyEntry]
    constructor
    · rw [hchanged.entries, if_neg hj]
    · exact hchanged.store id hj
    · intro n
      rw [hnames]

/-- So does writing those of several others. -/
theorem sameAt_writeAllThrough (s : Engine) {ids : List SegmentId} (hid : id ∉ ids) :
    s.SameAt (s.writeAllThrough ids).1 id := by
  induction ids generalizing s with
  | nil => exact .refl s id
  | cons j ids ih =>
    rw [List.mem_cons, not_or] at hid
    exact (sameAt_writeThrough s hid.1).trans (ih _ hid.2)

/-- Evicting another segment leaves this one. -/
theorem Outlines.sameAt_evict (h : s.Outlines a) {name : String}
    (hid : s.names.get? name ≠ some id) : s.SameAt (s.evict name).1 id := by
  unfold evict
  split
  · exact .refl s id
  · next e hr =>
    have hj : id ≠ e.id := by
      rintro rfl
      exact hid (h.of_resolve hr).1
    constructor
    · simp only [Table.get?_insert, if_neg hj]
    · intro x
      rfl
    · intro n
      rfl

/-- A store that is shut down tries to store what waits of its live segments. -/
theorem sameAt_shutdown (s : Engine) (hid : id ∉ s.liveEntries.map Entry.id) :
    s.SameAt s.shutdown.1 id := by
  cases hc : s.closed with
  | true =>
    simp only [shutdown, hc, ↓reduceIte]
    exact .refl s id
  | false =>
    have hclosed : s.SameAt { s with closed := true } id := .of_eq rfl (fun _ => rfl) rfl
    rw [shutdown_fst s hc]
    exact (hclosed.trans (sameAt_writeAllThrough _ hid)).trans (.of_eq rfl (fun _ => rfl) rfl)

end Engine

end Segments
