import Segments.Proofs.Registrations

/-!
# Stores with other lines

Lines and registrations decide who goes first, and nothing else. `recast` changes the lines of a
store and its registrations; whatever is done without looking at them is done to the changed store
as to the one before the change.
-/

namespace Segments

namespace Table

variable {κ α : Type}

/-- The table in which every value is changed by a function of its key. -/
def adjust (t : Table κ α) (f : κ → α → α) : Table κ α :=
  ⟨t.entries.map fun e => (e.1, f e.1 e.2), by rw [List.map_map]; exact t.nodup⟩

/-- A table is made of its entries. -/
theorem eq_of_entries {t t' : Table κ α} (h : t.entries = t'.entries) : t = t' := by
  cases t
  cases t'
  simpa using h

/-- To change every value twice is to change it once by both functions. -/
theorem adjust_adjust (t : Table κ α) (f g : κ → α → α) :
    (t.adjust f).adjust g = t.adjust fun k a => g k (f k a) :=
  eq_of_entries (List.map_map ..)

/-- A change that leaves every value leaves the table. -/
theorem adjust_self (t : Table κ α) : t.adjust (fun _ a => a) = t :=
  eq_of_entries (List.map_id _)

variable [DecidableEq κ] {t : Table κ α} {f g : κ → α → α} {k : κ}

/-- The value of a key is changed by the function at that key. -/
theorem get?_adjust (t : Table κ α) (f : κ → α → α) (k : κ) :
    (t.adjust f).get? k = (t.get? k).map (f k) := by
  unfold get? adjust
  simp only
  induction t.entries with
  | nil => rfl
  | cons e entries ih =>
    rw [List.map_cons, List.lookup_cons, List.lookup_cons, ih]
    by_cases hk : k = e.1
    · subst hk
      simp
    · have hne : (k == e.1) = false := by simpa using hk
      simp only [hne]

/-- Only what the change does to values that are there matters. -/
theorem adjust_congr (h : ∀ k a, t.get? k = some a → f k a = g k a) : t.adjust f = t.adjust g := by
  refine eq_of_entries (List.map_congr_left fun e he => ?_)
  rw [h e.1 e.2 (t.get?_eq_some_iff_mem.mpr he)]

/-- To modify the value of one key is a change of all values that leaves the others. -/
theorem modify_eq_adjust (t : Table κ α) (k : κ) (f : α → α) :
    t.modify k f = t.adjust fun j a => if j = k then f a else a := by
  refine eq_of_entries (List.map_congr_left fun e _ => ?_)
  by_cases hk : e.1 = k
  · simp only [if_pos hk]
  · simp only [if_neg hk]

/-- A value may be modified before all are changed or after, where both orders agree on it. -/
theorem modify_adjust {m : α → α} (h : ∀ a, t.get? k = some a → m (f k a) = f k (m a)) :
    (t.adjust f).modify k m = (t.modify k m).adjust f := by
  rw [modify_eq_adjust, modify_eq_adjust, adjust_adjust, adjust_adjust]
  refine adjust_congr fun j a ha => ?_
  split
  · next hj => exact hj ▸ h a (hj ▸ ha)
  · rfl

/-- A value may be put in before all are changed, if it is not changed yet, or after. -/
theorem insert_adjust (t : Table κ α) (f : κ → α → α) (k : κ) (a : α) :
    (t.adjust f).insert k (f k a) = (t.insert k a).adjust f := by
  apply eq_of_entries
  simp only [insert, erase, filter, adjust, List.map_append, List.map_cons, List.map_nil,
    List.filter_map]
  rfl

end Table

namespace Engine

/-- The store with other lines and registrations. -/
def recast (s : Engine) (F : SegmentId → TurnLine → TurnLine) (P : Pending → Pending) : Engine :=
  { s with
    entries := s.entries.adjust fun id e => { e with turns := F id e.turns }
    pending := P s.pending }

variable {s : Engine} {F G : SegmentId → TurnLine → TurnLine} {P Q : Pending → Pending}
  {id : SegmentId}

/-- Each entry has its line changed, and nothing else. -/
theorem get?_recast (s : Engine) (F : SegmentId → TurnLine → TurnLine) (P : Pending → Pending)
    (id : SegmentId) : (s.recast F P).entries.get? id =
      (s.entries.get? id).map fun e => { e with turns := F id e.turns } :=
  Table.get?_adjust _ _ _

/-- To change lines and registrations twice is to change them once by both functions. -/
theorem recast_recast (s : Engine) (F G : SegmentId → TurnLine → TurnLine)
    (P Q : Pending → Pending) : (s.recast F P).recast G Q =
      s.recast (fun id l => G id (F id l)) fun p => Q (P p) := by
  simp only [recast, Table.adjust_adjust]

/-- Only what is done to the lines and registrations that are there matters. -/
theorem recast_congr (hlines : ∀ id e, s.entries.get? id = some e → F id e.turns = G id e.turns)
    (hpending : P s.pending = Q s.pending) : s.recast F P = s.recast G Q := by
  unfold recast
  rw [Table.adjust_congr fun id e he => by rw [hlines id e he], hpending]

/-- A change that leaves lines and registrations leaves the store. -/
theorem recast_self (s : Engine) : s.recast (fun _ l => l) (fun p => p) = s := by
  unfold recast
  rw [s.entries.adjust_self]

/-- To change one line is to change all, the others to themselves. -/
theorem modifyTurns_eq_recast (s : Engine) (id : SegmentId) (f : TurnLine → TurnLine) :
    s.modifyTurns id f = s.recast (fun j l => if j = id then f l else l) fun p => p := by
  unfold modifyTurns modifyEntry recast
  rw [Table.modify_eq_adjust]
  congr 2
  funext j e
  by_cases hj : j = id
  · simp only [if_pos hj]
  · simp only [if_neg hj]

/-- A change of an entry that does not look at its line. -/
theorem modifyEntry_recast (s : Engine) (id : SegmentId) {f : Entry → Entry}
    (hf : ∀ e l, f { e with turns := l } = { f e with turns := l }) :
    (s.recast F P).modifyEntry id f = (s.modifyEntry id f).recast F P := by
  have hturns : ∀ e, (f e).turns = e.turns := by
    intro e
    have hsame := congrArg Entry.turns (hf e e.turns)
    exact hsame
  unfold modifyEntry recast
  rw [Table.modify_adjust fun e _ => by rw [hf, hturns]]

/-- A change of a line that goes with the others. -/
theorem modifyTurns_recast {f g : TurnLine → TurnLine}
    (h : ∀ e, s.entries.get? id = some e → g (F id e.turns) = F id (f e.turns)) :
    (s.recast F P).modifyTurns id g = (s.modifyTurns id f).recast F P := by
  rw [modifyTurns_eq_recast, modifyTurns_eq_recast, recast_recast, recast_recast]
  refine recast_congr (fun j e he => ?_) rfl
  split
  · next hj => exact hj ▸ h e (hj ▸ he)
  · rfl

/-! ## What does not look at lines -/

/-- A live segment has an entry. -/
theorem get?_of_live? {e : Entry} (h : s.live? id = some e) : s.entries.get? id = some e := by
  unfold live? at h
  split at h
  · next c hc =>
    split at h
    · cases h
    · exact hc.trans h
  · cases h

/-- The same segments are live in the changed store. -/
theorem live?_recast (s : Engine) (F : SegmentId → TurnLine → TurnLine) (P : Pending → Pending)
    (id : SegmentId) : (s.recast F P).live? id =
      (s.live? id).map fun e => { e with turns := F id e.turns } := by
  unfold live?
  rw [get?_recast]
  cases s.entries.get? id with
  | none => rfl
  | some e =>
    simp only [Option.map_some]
    change (if e.state = .deleted then none else _) = _
    split <;> rfl

/-- A name stands for the same segment, whatever its line. -/
theorem resolve?_recast (s : Engine) (F : SegmentId → TurnLine → TurnLine) (P : Pending → Pending)
    (name : String) : ∃ id, ((s.recast F P).resolve? name =
      (s.resolve? name).map fun e => { e with turns := F id e.turns }) ∧
      ∀ e, s.resolve? name = some e → s.entries.get? id = some e := by
  have hnames : (s.recast F P).names = s.names := rfl
  unfold resolve?
  rw [hnames]
  cases s.names.get? name with
  | none =>
    refine ⟨0, rfl, ?_⟩
    intro e he
    cases he
  | some id => exact ⟨id, live?_recast s F P id, fun e he => get?_of_live? he⟩

/-- A name stands for the same segment in the changed store. -/
theorem resolve_recast (s : Engine) (F : SegmentId → TurnLine → TurnLine) (P : Pending → Pending)
    (name : String) : ∃ id, ((s.recast F P).resolve name =
      (s.resolve name).map fun e => { e with turns := F id e.turns }) ∧
      ∀ e, s.resolve name = .ok e → s.entries.get? id = some e := by
  obtain ⟨id, hid, hthere⟩ := resolve?_recast s F P name
  refine ⟨id, ?_, fun e he => ?_⟩
  · unfold resolve
    rw [hid]
    cases s.resolve? name <;> rfl
  · unfold resolve at he
    split at he
    · next c hc => exact hthere e (Except.ok.inj he ▸ hc)
    · cases he

/-- A request asks for the same action in the changed store. -/
theorem action?_recast (s : Engine) (F : SegmentId → TurnLine → TurnLine) (P : Pending → Pending)
    (request : Request) : request.action? (s.recast F P) = request.action? s := by
  have hone : ∀ (name : String) (make : SegmentId → Action),
      ((s.recast F P).resolve? name).map (fun e => make e.id) =
        (s.resolve? name).map fun e => make e.id := by
    intro name make
    obtain ⟨id, hid, -⟩ := resolve?_recast s F P name
    rw [hid, Option.map_map]
    rfl
  cases request with
  | merge target source =>
    obtain ⟨id, hid, -⟩ := resolve?_recast s F P target
    obtain ⟨id', hid', -⟩ := resolve?_recast s F P source
    simp only [Request.action?, hid, hid']
    cases s.resolve? target <;> cases s.resolve? source <;> rfl
  | create name updates => rfl
  | lookup name ids cache => rfl
  | read name offset maxLength => rfl
  | info name wait => rfl
  | append name data updates => exact hone name fun id => .append id data updates none
  | appendAt name offset data updates =>
    exact hone name fun id => .append id data updates (some offset)
  | update name updates => exact hone name fun id => .update name id updates
  | sealing name => exact hone name fun id => .sealing name id
  | delete name => exact hone name fun id => .delete name id
  | truncate name offset => exact hone name fun id => .truncate name id offset

/-- The properties of a segment tell nothing of lines and registrations. -/
theorem properties_recast (s : Engine) (F : SegmentId → TurnLine → TurnLine)
    (P : Pending → Pending) (name : String) :
    (s.recast F P).properties name = s.properties name := by
  obtain ⟨id, hid, -⟩ := resolve_recast s F P name
  have hopen : (s.recast F P).requireOpen = s.requireOpen := rfl
  unfold properties
  rw [hid, hopen]
  cases s.resolve name <;> rfl

/-- Touching attributes has nothing to do with lines and registrations. -/
theorem touch_recast (id : SegmentId) (ids : List AttributeId) :
    (s.recast F P).touch id ids = (s.touch id ids).recast F P :=
  modifyEntry_recast s id fun _ _ => rfl

section

variable (hF : ∀ id, F id .empty = .empty)

include hF

/-- The entry of a segment has its line changed, and nothing else. -/
theorem entry_recast (id : SegmentId) : (s.recast F P).entry id =
    { s.entry id with turns := F id (s.entry id).turns } := by
  unfold entry
  rw [get?_recast]
  cases s.entries.get? id with
  | none =>
    change (default : Entry) = { (default : Entry) with turns := F id .empty }
    rw [hF]
    rfl
  | some e => rfl

theorem lines_recast (id : SegmentId) : (s.recast F P).lines id = F id (s.lines id) :=
  congrArg Entry.turns (entry_recast hF id)

/-- A change is judged alike in the changed store. -/
theorem propose_recast (action : Action) : (s.recast F P).propose action = s.propose action := by
  have hevaluation : (s.recast F P).evaluation = s.evaluation := rfl
  unfold propose proposeBy
  rw [hevaluation]
  cases action with
  | create name updates => rfl
  | _ =>
    simp only [entry_recast hF]
    rfl

/-- What a change consults is touched alike in the changed store. -/
theorem touchConsulted_recast (action : Action) :
    (s.recast F P).touchConsulted action = (s.touchConsulted action).recast F P := by
  have hevaluation : (s.recast F P).evaluation = s.evaluation := rfl
  unfold touchConsulted touchConsultedBy
  rw [hevaluation]
  cases action with
  | append id data updates expected =>
    have hcheck : checkAppend { s.entry id with turns := F id (s.entry id).turns } expected =
        checkAppend (s.entry id) expected := rfl
    simp only [entry_recast hF, hcheck]
    cases checkAppend (s.entry id) expected with
    | error e => rfl
    | ok u => exact touch_recast id _
  | update name id updates =>
    have hwritable :
        ({ s.entry id with turns := F id (s.entry id).turns } : Entry).state.requireWritable name =
          (s.entry id).state.requireWritable name := rfl
    simp only [entry_recast hF, hwritable]
    cases (s.entry id).state.requireWritable name with
    | error e => rfl
    | ok u => exact touch_recast id _
  | _ => rfl

/-- Attribute values are applied alike in the changed store. -/
theorem applyAttributes_recast (id : SegmentId) (values : AttributeValues) :
    ((s.recast F P).applyAttributes id values).1 = (s.applyAttributes id values).1.recast F P := by
  unfold applyAttributes
  rw [entry_recast hF]
  have hmodified : ∀ attributes, (s.recast F P).modifyEntry id
      (fun e => { e with metadata := { e.metadata with attributes } }) =
      (s.modifyEntry id fun e =>
        { e with metadata := { e.metadata with attributes } }).recast F P :=
    fun attributes => modifyEntry_recast s id fun _ _ => rfl
  simp only [hmodified]
  rfl

/-- A record takes effect alike in the changed store. -/
theorem enact_recast (callerName : String) (record : Record) :
    ((s.recast F P).enact callerName record).1 = (s.enact callerName record).1.recast F P := by
  cases record with
  | create id name values =>
    -- nobody stands at the line of a new segment
    have hnew : ∀ m,
        ({ Entry.ofMetadata m with turns := F id .empty } : Entry) = .ofMetadata m := by
      intro m
      rw [hF]
      rfl
    have hinsert : ∀ m, (s.recast F P).entries.insert id (.ofMetadata m) =
        (s.entries.insert id (.ofMetadata m)).adjust
          fun id e => { e with turns := F id e.turns } := by
      intro m
      rw [← Table.insert_adjust]
      exact congrArg _ (hnew m).symm
    simp only [enact, hinsert]
    rfl
  | append id offset data values =>
    simp only [enact]
    rw [modifyEntry_recast s id fun _ _ => rfl, applyAttributes_recast hF]
    exact modifyEntry_recast _ id fun _ _ => rfl
  | updateAttributes id values => exact applyAttributes_recast hF id values
  | sealing id length => exact modifyEntry_recast s id fun _ _ => rfl
  | truncate id offset => exact modifyEntry_recast s id fun _ _ => rfl
  | delete id =>
    simp only [enact, dropStored_fst]
    rw [modifyEntry_recast s id fun _ _ => rfl]
    rfl
  | merge target source sourceLength offset =>
    simp only [enact, dropStored_fst]
    rw [entry_recast hF, modifyEntry_recast s target fun _ _ => rfl,
      modifyEntry_recast _ source fun _ _ => rfl]
    rfl

/-- A change is made alike in the changed store, and ends alike. -/
theorem execute_recast (action : Action) :
    ((s.recast F P).execute action).1 = (s.execute action).1.recast F P ∧
      ((s.recast F P).execute action).2.2 = (s.execute action).2.2 := by
  rw [execute_eq, execute_eq, propose_recast hF, touchConsulted_recast hF]
  cases s.propose action with
  | refuse e => exact ⟨rfl, rfl⟩
  | idle answer => exact ⟨rfl, rfl⟩
  | commit record answer =>
    generalize s.touchConsulted action = u
    have hlog : (u.recast F P).log = u.log := rfl
    simp only [hlog]
    rcases u.log.append record with ⟨log, e | n⟩
    · exact ⟨rfl, rfl⟩
    · exact ⟨enact_recast hF (s := { u with log }) action.callerName record, rfl⟩

/-- A look-up finishes alike in the changed store, with the same answer. -/
theorem finishLookup_recast (id : SegmentId) (l : AttributeLookup) (cache : Bool)
    (values : AttributeValues) :
    ((s.recast F P).finishLookup id l cache values).1 =
        (s.finishLookup id l cache values).1.recast F P ∧
      ((s.recast F P).finishLookup id l cache values).2.1 =
        (s.finishLookup id l cache values).2.1 := by
  unfold finishLookup
  rw [entry_recast hF]
  by_cases hcache : cache = true ∧ (s.entry id).state = .active
  · have hcache' : cache = true ∧
        ({ s.entry id with turns := F id (s.entry id).turns } : Entry).state = .active := hcache
    simp only [if_pos hcache, if_pos hcache']
    exact ⟨modifyEntry_recast s id fun _ _ => rfl, rfl⟩
  · have hcache' : ¬(cache = true ∧
        ({ s.entry id with turns := F id (s.entry id).turns } : Entry).state = .active) := hcache
    rw [if_neg hcache, if_neg hcache']
    exact ⟨rfl, rfl⟩

end

/-- A reader is opened alike in the changed store. -/
theorem openReader_recast (s : Engine) (F : SegmentId → TurnLine → TurnLine)
    (P : Pending → Pending) (name : String) (offset maxLength : Nat) :
    ((s.recast F P).openReader name offset maxLength).1 =
        (s.openReader name offset maxLength).1.recast F P ∧
      ((s.recast F P).openReader name offset maxLength).2 =
        (s.openReader name offset maxLength).2 := by
  obtain ⟨j, hj, -⟩ := resolve_recast s F P name
  unfold openReader
  rw [hj]
  cases s.resolve name with
  | error e => exact ⟨rfl, rfl⟩
  | ok e =>
    simp only [Except.map]
    cases e.metadata.state.requireReadable name with
    | error e' => exact ⟨rfl, rfl⟩
    | ok u =>
      simp only
      split
      · exact ⟨rfl, rfl⟩
      · split
        · exact ⟨rfl, rfl⟩
        · exact ⟨modifyEntry_recast s e.id fun _ _ => rfl, rfl⟩

/-- A look-up begins alike in the changed store. -/
theorem beginLookup_recast (s : Engine) (F : SegmentId → TurnLine → TurnLine)
    (P : Pending → Pending) (name : String) (ids : List AttributeId) (cache : Bool) :
    ((s.recast F P).beginLookup name ids cache).1 =
        (s.beginLookup name ids cache).1.recast F P ∧
      ((s.recast F P).beginLookup name ids cache).2.1 =
        (s.beginLookup name ids cache).2.1 := by
  obtain ⟨j, hj, -⟩ := resolve_recast s F P name
  unfold beginLookup
  rw [hj]
  have hopen : (s.recast F P).requireOpen = s.requireOpen := rfl
  rw [hopen]
  cases s.requireOpen with
  | error e => exact ⟨rfl, rfl⟩
  | ok u =>
    simp only [Phase.ofCheck]
    cases s.resolve name with
    | error e => exact ⟨rfl, rfl⟩
    | ok e =>
      have hreadable : ({ e with turns := F j e.turns } : Entry).state.requireReadable
          ({ e with turns := F j e.turns } : Entry).name = e.state.requireReadable e.name := rfl
      simp only [Except.map, hreadable]
      cases e.state.requireReadable e.name with
      | error e' => exact ⟨rfl, rfl⟩
      | ok u =>
        simp only
        split
        · exact ⟨touch_recast e.id ids, rfl⟩
        · exact ⟨touch_recast e.id ids, rfl⟩

/-- The values of a segment are written through alike in the changed store. -/
theorem writeThrough_recast (s : Engine) (F : SegmentId → TurnLine → TurnLine)
    (P : Pending → Pending) (id : SegmentId) :
    ((s.recast F P).writeThrough id).1 = (s.writeThrough id).1.recast F P := by
  unfold writeThrough
  rw [get?_recast]
  cases s.entries.get? id with
  | none => rfl
  | some e =>
    simp only [Option.map_some]
    have hmodified : ∀ attributes, (s.recast F P).modifyEntry id
        (fun e => { e with metadata := { e.metadata with attributes } }) =
        (s.modifyEntry id fun e => { e with metadata := { e.metadata with attributes } }).recast
          F P := fun attributes => modifyEntry_recast s id fun _ _ => rfl
    rw [hmodified]
    rfl

/-- So are those of several segments. -/
theorem writeAllThrough_recast (s : Engine) (F : SegmentId → TurnLine → TurnLine)
    (P : Pending → Pending) (ids : List SegmentId) :
    ((s.recast F P).writeAllThrough ids).1 = (s.writeAllThrough ids).1.recast F P := by
  induction ids generalizing s with
  | nil => rfl
  | cons id ids ih =>
    simp only [writeAllThrough, writeThrough_recast]
    exact ih _

theorem liveEntries_recast (s : Engine) (F : SegmentId → TurnLine → TurnLine)
    (P : Pending → Pending) :
    (s.recast F P).liveEntries.map Entry.id = s.liveEntries.map Entry.id := by
  simp only [liveEntries, recast, Table.values, Table.adjust, List.map_map, List.filter_map]
  rfl

/-- The changed store is shut down alike. -/
theorem shutdown_recast (s : Engine) (F : SegmentId → TurnLine → TurnLine)
    (P : Pending → Pending) : (s.recast F P).shutdown.1 = s.shutdown.1.recast F P := by
  cases hc : s.closed with
  | true =>
    have hc' : (s.recast F P).closed = true := hc
    simp only [shutdown, hc, hc', ↓reduceIte]
  | false =>
    rw [shutdown_fst (s.recast F P) hc, shutdown_fst s hc, liveEntries_recast]
    have hclosed : ({ s.recast F P with closed := true } : Engine) =
        ({ s with closed := true } : Engine).recast F P := rfl
    rw [hclosed, writeAllThrough_recast]
    rfl

/-- A segment is evicted alike in the changed store. -/
theorem evict_recast (s : Engine) (F : SegmentId → TurnLine → TurnLine) (P : Pending → Pending)
    {a : Account} (h : s.Outlines a) (name : String) :
    ((s.recast F P).evict name).1 = (s.evict name).1.recast F P := by
  obtain ⟨j, hj, hthere⟩ := resolve_recast s F P name
  unfold evict
  rw [hj]
  cases hr : s.resolve name with
  | error e => rfl
  | ok e =>
    obtain rfl : e.id = j := (h.of_entry (hthere e hr)).1
    simp only [Except.map]
    unfold recast
    simp only [← Table.insert_adjust]
    rfl

end Engine

end Segments
