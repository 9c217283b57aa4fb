import Segments.Proofs.Passage
import Segments.Proofs.Repetition

/-!
# A store that one caller has to itself

Between two calls of a caller who is alone nothing is registered, no turn is taken, and the journal
says all that the store has. Every call brings the store back to such a state: a call for a change
with at most one record more, and any other call with the same records.
-/

namespace Segments

namespace Pending

variable {p : Pending}

/-- The registrations of an operation come last, with tickets beyond all that were given out. -/
theorem registerAll_live (p : Pending) (names : List String) :
    (p.registerAll names).1.live = p.live ++ (p.registerAll names).2 ∧
      ∀ r ∈ (p.registerAll names).2, p.last < r.ticket := by
  induction names generalizing p with
  | nil => exact ⟨(List.append_nil _).symm, nofun⟩
  | cons name names ih =>
    obtain ⟨hlive, htickets⟩ := ih (p.register name).1
    refine ⟨?_, fun r hr => ?_⟩
    · rw [registerAll, hlive]
      exact List.append_assoc _ _ _
    · rcases List.mem_cons.mp hr with rfl | hrest
      · exact Nat.lt_succ_self p.last
      · exact Nat.lt_of_succ_lt (htickets r hrest)

/-- Exactly the given registrations are released. -/
theorem releaseAll_live (p : Pending) (rs : List Registration) :
    (p.releaseAll rs).live = p.live.filter fun r => decide (r ∉ rs) := by
  induction rs generalizing p with
  | nil => exact (List.filter_eq_self.mpr fun _ _ => by simp).symm
  | cons r rs ih =>
    have hstep : p.releaseAll (r :: rs) = (p.release r).releaseAll rs := rfl
    rw [hstep, ih, release, List.filter_filter]
    refine List.filter_congr fun r' _ => ?_
    by_cases hr : r' = r <;> by_cases hrs : r' ∈ rs <;> simp [hr, hrs]

/-- The only operation in flight leaves nothing registered. -/
theorem live_of_releaseAll (h : p.live = []) (names : List String) :
    ((p.registerAll names).1.releaseAll (p.registerAll names).2).live = [] := by
  rw [releaseAll_live, (p.registerAll_live names).1, h, List.nil_append]
  exact List.filter_eq_nil_iff.mpr fun r hr => by simp [hr]

/-- The only operation in flight waits for no earlier one. -/
theorem isClear_registerAll (h : p.live = []) (names : List String) (name : String) :
    (p.registerAll names).1.isClear name p.barrier = true := by
  obtain ⟨hlive, htickets⟩ := p.registerAll_live names
  rw [isClear, hlive, h, List.nil_append, List.all_eq_true]
  intro r hr
  have hticket : p.barrier < r.ticket := htickets r hr
  simp [hticket]

end Pending

namespace Engine

variable {s s' : Engine} {o : Operation} {rs new : List Record} {rest : Bytes}
  {result : Except SegmentError Answer}

/-- A valid request is accepted and registered. -/
theorem accept_of_validate {request : Request} {timeout : Nat}
    (h : request.validate s.config timeout = .ok ()) : s.accept request timeout =
      .ok ({ s with pending := (s.pending.registerAll request.names).1 },
        ⟨request, s.pending.barrier, (s.pending.registerAll request.names).2, .accepted⟩) := by
  rw [accept, h]

/-! ## Registrations stay while an operation goes on -/

/-- No record changes the registrations. -/
theorem enact_pending (s : Engine) (callerName : String) (record : Record) :
    (s.enact callerName record).1.pending = s.pending := by
  cases record <;> simp only [enact, dropStored_fst] <;> rfl

theorem touchConsulted_pending (s : Engine) (action : Action) :
    (s.touchConsulted action).pending = s.pending := by
  unfold touchConsulted touchConsultedBy
  split
  · split <;> rfl
  · split <;> rfl
  · rfl

/-- No change of a segment changes the registrations. -/
theorem execute_pending (s : Engine) (action : Action) :
    (s.execute action).1.pending = s.pending := by
  have hexecutes := s.executes action
  generalize (s.execute action).1 = s', (s.execute action).2.2 = result at hexecutes ⊢
  cases hexecutes with
  | refused proposed => exact s.touchConsulted_pending action
  | idles proposed => exact s.touchConsulted_pending action
  | fails proposed appended => exact s.touchConsulted_pending action
  | commits proposed appended => exact (enact_pending _ _ _).trans (s.touchConsulted_pending action)

/-- Leaving lines changes no registration. -/
theorem leaveAll_pending (s : Engine) (places : List Place) :
    (s.leaveAll places).pending = s.pending := by
  unfold leaveAll
  induction places generalizing s with
  | nil => rfl
  | cons p places ih => exact (ih _).trans rfl

theorem ofCheck_pending {α : Type} {check : Except SegmentError α}
    {next : α → Engine × Phase × List Event} (h : ∀ v, (next v).1.pending = s.pending) :
    (Phase.ofCheck s check next).1.pending = s.pending := by
  cases check with
  | error e => rfl
  | ok v => exact h v

/-- Taking turns changes no registration. -/
theorem takeTurns_pending (s : Engine) (action : Action) (held : List Place)
    (wanted : List SegmentId) : (s.takeTurns action held wanted).1.pending = s.pending := by
  induction wanted generalizing s held with
  | nil =>
    unfold takeTurns
    exact (leaveAll_pending _ held).trans (ofCheck_pending fun _ => s.execute_pending action)
  | cons id wanted ih =>
    unfold takeTurns
    simp only
    split
    · exact (ih _ _).trans rfl
    · rfl

theorem inTurn_pending (s : Engine) (name : String) (action : SegmentId → Action) :
    (s.inTurn name action).1.pending = s.pending :=
  ofCheck_pending fun _ => ofCheck_pending fun _ => s.takeTurns_pending _ _ _

theorem atOnce_pending (s : Engine) (name : String) (action : SegmentId → Action) :
    (s.atOnce name action).1.pending = s.pending :=
  ofCheck_pending fun _ => ofCheck_pending fun _ => s.execute_pending _

/-- Opening a reader changes no registration. -/
theorem openReader_pending (s : Engine) (name : String) (offset maxLength : Nat) :
    (s.openReader name offset maxLength).1.pending = s.pending := by
  unfold openReader
  split
  · rfl
  · simp only
    split
    · rfl
    · split
      · rfl
      · split <;> rfl

/-- Finishing a look-up changes no registration. -/
theorem finishLookup_pending (s : Engine) (id : SegmentId) (lookup : AttributeLookup)
    (cache : Bool) (values : AttributeValues) :
    (s.finishLookup id lookup cache values).1.pending = s.pending := by
  unfold finishLookup
  simp only
  split <;> rfl

/-- The first step of an operation changes no registration. -/
theorem begin_pending (s : Engine) (barrier : Nat) (request : Request) :
    (s.begin barrier request).1.pending = s.pending := by
  cases request with
  | create name updates => exact ofCheck_pending fun _ => s.execute_pending _
  | append name data updates => exact s.atOnce_pending _ _
  | appendAt name offset data updates =>
    exact s.inTurn_pending name fun id => .append id data updates (some offset)
  | update name updates => exact s.atOnce_pending _ _
  | lookup name ids cache =>
    refine ofCheck_pending fun _ => ofCheck_pending fun e => ofCheck_pending fun _ => ?_
    simp only
    split <;> rfl
  | read name offset maxLength => exact ofCheck_pending fun _ => s.openReader_pending _ _ _
  | info name wait =>
    change (s.describe name wait barrier).1.pending = s.pending
    unfold describe
    split <;> rfl
  | merge target source =>
    exact ofCheck_pending fun _ => ofCheck_pending fun _ => ofCheck_pending fun _ =>
      s.takeTurns_pending _ _ _
  | sealing name => exact s.inTurn_pending _ _
  | delete name => exact s.inTurn_pending _ _
  | truncate name offset =>
    exact s.inTurn_pending name fun id => .truncate name id offset

/-- No step of an operation touches the registrations. -/
theorem advancePhase_pending (s : Engine) (o : Operation) :
    (s.advancePhase o).1.pending = s.pending := by
  unfold advancePhase
  split
  · exact s.begin_pending _ _
  · simp only
    split
    · exact (takeTurns_pending _ _ _ _).trans rfl
    · rfl
  · rfl
  · exact s.finishLookup_pending _ _ _ _
  · rfl

end Engine

/-! ## Operations that change nothing -/

/-- An operation that asks for no change and does not stand in line. -/
structure Operation.Quiet (o : Operation) : Prop where
  /-- It asks for no change. -/
  request : o.request.changes = false
  /-- It has yet to begin, or looks attributes up. -/
  phase : o.phase = .accepted ∨ o.phase.looksUp = true

namespace Engine

variable {s s' : Engine} {o : Operation} {rs : List Record} {rest : Bytes} {n : Nat}
  {result : Except SegmentError Answer}

/-- What changes nothing asks for no action. -/
theorem action?_of_quiet (h : o.Quiet) : o.action? s = none := by
  unfold Operation.action?
  rcases h.phase with hphase | hphase
  · rw [hphase]
    have hq := h.request
    cases hrequest : o.request <;> rw [hrequest] at hq <;> first | rfl | cases hq
  · cases hp : o.phase <;> rw [hp] at hphase <;> first | rfl | cases hphase

/-- What a caller does who changes nothing: only entries have changed, and the turns are as free as
they were. -/
structure Browses (s s' : Engine) : Prop where
  /-- Only entries have changed. -/
  entries : ∃ entries, s' = { s with entries }
  /-- Nobody has a turn. -/
  turns : s.Turns [] → s'.Turns []

theorem Browses.refl (s : Engine) : s.Browses s := ⟨⟨_, rfl⟩, fun h => h⟩

/-- To change one entry, but for its line, is to browse. -/
theorem Browses.modifyEntry (s : Engine) (id : SegmentId) {f : Entry → Entry}
    (hf : ∀ e, (f e).turns = e.turns) : s.Browses (s.modifyEntry id f) :=
  ⟨⟨_, rfl⟩, fun h => h.modifyEntry id hf⟩

/-- A check that fails leaves the store to browse on. -/
theorem Browses.ofCheck {α : Type} {check : Except SegmentError α}
    {next : α → Engine × Phase × List Event} (h : ∀ v, s.Browses (next v).1) :
    s.Browses (Phase.ofCheck s check next).1 := by
  cases check with
  | error e => exact .refl s
  | ok v => exact h v

/-- To open a reader is to browse. -/
theorem Browses.openReader (s : Engine) (name : String) (offset maxLength : Nat) :
    s.Browses (s.openReader name offset maxLength).1 := by
  unfold Engine.openReader
  split
  · exact .refl s
  · simp only
    split
    · exact .refl s
    · split
      · exact .refl s
      · split
        · exact .refl s
        · exact .modifyEntry s _ fun _ => rfl

/-- A step of a quiet operation browses. -/
theorem advancePhase_browses (h : o.Quiet) : s.Browses (s.advancePhase o).1 := by
  unfold advancePhase
  split
  · have hq := h.request
    cases hrequest : o.request with
    | lookup name ids cache =>
      refine .ofCheck fun _ => .ofCheck fun e => .ofCheck fun _ => ?_
      simp only
      split <;> exact .modifyEntry s _ fun _ => rfl
    | read name offset maxLength => exact .ofCheck fun _ => .openReader s _ _ _
    | info name wait =>
      change s.Browses (s.describe name wait o.barrier).1
      unfold describe
      split <;> exact .refl s
    | _ =>
      rw [hrequest] at hq
      cases hq
  · next hphase =>
    rcases h.phase with hp | hp <;> rw [hphase] at hp <;> cases hp
  · exact .refl s
  · unfold finishLookup
    simp only
    split
    · exact .modifyEntry s _ fun _ => rfl
    · exact .refl s
  · exact .refl s

/-- A step after which an operation looks attributes up leaves it quiet and registered. -/
theorem advance_of_looksUp (h : (s.advance o).2.1.phase.looksUp = true) :
    (s.advance o).1 = (s.advancePhase o).1 := by
  have hunfinished : ({ o with phase := (s.advancePhase o).2.1 } : Operation).phase.isFinished
      = false := Phase.isFinished_of_looksUp h
  change (s.advancePhase o).1.settle { o with phase := (s.advancePhase o).2.1 } = _
  rw [settle, hunfinished]
  rfl

/-- A step of a quiet operation commits nothing. -/
theorem Sound.goes_of_quiet (h : s.Sound rs rest) (ho : o.Quiet) (hv : o.Valid s (.after rs)) :
    ∃ rest', s.Continues rs rest (s.advancePhase o).1 rs rest' ∧
      ({ o with phase := (s.advancePhase o).2.1 } : Operation).Valid (s.advancePhase o).1
        (.after rs) := by
  obtain ⟨new, rest', hcont, hvalid, hcommits⟩ := h.goes hv (s.advancePhase_goes o)
  have hnew : new = [] := by
    cases hcommits with
    | nothing idle => rfl
    | record asked alike proposed done =>
      rw [action?_of_quiet ho] at asked
      cases asked
  subst hnew
  rw [List.append_nil] at hcont hvalid
  exact ⟨rest', hcont, hvalid⟩

/-- A quiet operation commits nothing and leaves no registration, and only entries have changed
when it has ended. -/
theorem Ends.quiet (he : s.Ends n o s' result) (h : s.Sound rs rest) (ho : o.Quiet)
    (hv : o.Valid s (.after rs)) : (∃ rest', s.Continues rs rest s' rs rest') ∧
      (s.Turns [] → s'.Turns []) ∧
      ∃ entries, s' = { s with entries, pending := s.pending.releaseAll o.registrations } := by
  induction he generalizing rest with
  | @last s o result finished =>
    obtain ⟨rest', hcont, -⟩ := h.goes_of_quiet ho hv
    have hsettled := Alike.settle (s.advancePhase o).1
      { o with phase := (s.advancePhase o).2.1 }
    obtain ⟨⟨entries, hentries⟩, hturns⟩ := advancePhase_browses (s := s) ho
    refine ⟨⟨rest', hcont.trans (hcont.sound.alike hsettled)⟩,
      fun ht => (hturns ht).settle _, entries, ?_⟩
    change (s.advancePhase o).1.settle { o with phase := (s.advancePhase o).2.1 } = _
    have hfinished : (s.advancePhase o).2.1 = .finished result := finished
    rw [settle, hfinished, hentries]
    rfl
  | @more n s s' o result looks more ih =>
    obtain ⟨rest', hcont, hvalid⟩ := h.goes_of_quiet ho hv
    obtain ⟨⟨entries, hentries⟩, hturns⟩ := advancePhase_browses (s := s) ho
    rw [← advance_of_looksUp looks] at hcont hvalid hentries hturns
    obtain ⟨⟨rest'', hrest⟩, hturns', entries', hentries'⟩ :=
      ih hcont.sound ⟨ho.request, Or.inr looks⟩ hvalid
    refine ⟨⟨rest'', hcont.trans hrest⟩, fun ht => hturns' (hturns ht), entries', ?_⟩
    rw [hentries', hentries]
    rfl

/-- When an operation ended, entries are published in order. -/
theorem Ends.inOrder (he : s.Ends n o s' result) (ho : s.InOrder) : s'.InOrder := by
  have hstep : ∀ (s : Engine) (o : Operation), s.InOrder → (s.advance o).1.InOrder := by
    intro s o ho
    obtain ⟨new, hpasses, -⟩ := (s.advancePhase_goes o).passes
    exact (Alike.settle _ { o with phase := (s.advancePhase o).2.1 }).rests.inOrder
      (hpasses.inOrder ho)
  induction he with
  | last finished => exact hstep _ _ ho
  | more looks rest ih => exact ih (hstep _ _ ho)

/-- An operation that reads the attribute store ends with the step after. -/
theorem ends_of_fetching {id : SegmentId} {l : AttributeLookup} {cache : Bool}
    (hphase : o.phase = .fetching id l cache)
    (hf : (s.finishLookup id l cache (s.store.lookup id l.missing)).2.1 = .finished result) :
    ∃ s', s.Ends 1 o s' result := by
  have hfetched : s.advance o =
      (s, { o with phase := .fetched id l cache (s.store.lookup id l.missing) }, []) := by
    simp only [advance, advancePhase, hphase, settle, Phase.isFinished, Bool.false_eq_true,
      ↓reduceIte]
  have hlooks : (s.advance o).2.1.phase.looksUp = true := by
    rw [hfetched]
    rfl
  have hlast : ((s.advance o).1.advance (s.advance o).2.1).2.1.phase = .finished result := by
    rw [hfetched]
    exact hf
  exact ⟨_, .more hlooks (.last hlast)⟩

/-- Whether a look-up has all it needs or not, it ends with an answer. -/
theorem finishLookup_finished (s : Engine) (id : SegmentId) (l : AttributeLookup) (cache : Bool)
    (values : AttributeValues) :
    ∃ answer, (s.finishLookup id l cache values).2.1 = .finished (.ok answer) := by
  unfold finishLookup
  simp only
  split <;> exact ⟨_, rfl⟩

/-- An operation that begins a look-up ends if the look-up does. -/
theorem ends_of_begin (hphase : o.phase = .accepted) {id : SegmentId} {l : AttributeLookup}
    {cache : Bool} (hbegins : (s.begin o.barrier o.request).2.1 = .fetching id l cache)
    (hf : ((s.begin o.barrier o.request).1.finishLookup id l cache
      ((s.begin o.barrier o.request).1.store.lookup id l.missing)).2.1 = .finished result) :
    ∃ s', s.Ends 2 o s' result := by
  have hbegun : s.advancePhase o = s.begin o.barrier o.request := by
    rw [advancePhase, hphase]
  have hnext : (s.advance o).2.1.phase = .fetching id l cache := by
    change (s.advancePhase o).2.1 = _
    rw [hbegun, hbegins]
  have hlooks : (s.advance o).2.1.phase.looksUp = true := by
    rw [hnext]
    rfl
  have hengine := (advance_of_looksUp hlooks).trans (congrArg Prod.fst hbegun)
  rw [← hengine] at hf
  obtain ⟨s', hends⟩ := ends_of_fetching hnext hf
  exact ⟨s', .more hlooks hends⟩

/-- An operation that has ended when it begins. -/
theorem ends_of_finished (hphase : o.phase = .accepted)
    (hf : (s.begin o.barrier o.request).2.1 = .finished result) :
    s.Ends 0 o (s.advance o).1 result := by
  refine .last ?_
  change (s.advancePhase o).2.1 = _
  rw [advancePhase, hphase]
  exact hf

/-- A look-up is answered at once or goes to the store. -/
theorem beginLookup_phase (s : Engine) (name : String) (ids : List AttributeId) (cache : Bool) :
    (∃ result, (s.beginLookup name ids cache).2.1 = .finished result) ∨
      ∃ id l, (s.beginLookup name ids cache).2.1 = .fetching id l cache := by
  unfold beginLookup
  cases s.requireOpen with
  | error e => exact Or.inl ⟨_, rfl⟩
  | ok u =>
    cases s.resolve name with
    | error e => exact Or.inl ⟨_, rfl⟩
    | ok entry =>
      cases hread : entry.state.requireReadable entry.name with
      | error e => exact Or.inl ⟨.error e, by simp only [Phase.ofCheck, hread]⟩
      | ok u =>
        simp only [Phase.ofCheck, hread]
        split
        · exact Or.inl ⟨_, rfl⟩
        · exact Or.inr ⟨_, _, rfl⟩

/-- An operation that asks for no change ends by itself when it waits for no earlier one. -/
theorem exists_ends (hphase : o.phase = .accepted) (hq : o.request.changes = false)
    (hclear : ∀ name, s.pending.isClear name o.barrier = true) :
    ∃ n s' result, n < 8 ∧ s.Ends n o s' result := by
  have hfinished : ∀ result, (s.begin o.barrier o.request).2.1 = .finished result →
      ∃ n s' result, n < 8 ∧ s.Ends n o s' result :=
    fun result hf => ⟨0, _, result, by decide, ends_of_finished hphase hf⟩
  cases hrequest : o.request with
  | lookup name ids cache =>
    have hbegin : s.begin o.barrier o.request = s.beginLookup name ids cache := by
      rw [hrequest]
      rfl
    rw [hbegin] at hfinished
    rcases s.beginLookup_phase name ids cache with ⟨result, hf⟩ | ⟨id, l, hp⟩
    · exact hfinished result hf
    · rw [← hbegin] at hp
      obtain ⟨answer, hf⟩ := finishLookup_finished (s.begin o.barrier o.request).1 id l cache
        ((s.begin o.barrier o.request).1.store.lookup id l.missing)
      obtain ⟨s', hends⟩ := ends_of_begin hphase hp hf
      exact ⟨2, s', .ok answer, by decide, hends⟩
  | read name offset maxLength =>
    rw [hrequest] at hfinished
    cases hopen : s.requireOpen with
    | error e => exact hfinished (.error e) (by simp only [begin, beginRead, hopen, Phase.ofCheck])
    | ok u =>
      exact hfinished ((s.openReader name offset maxLength).2.map .reader)
        (by simp only [begin, beginRead, hopen, Phase.ofCheck])
  | info name wait =>
    have hwaits : ¬(wait = true ∧ (!s.pending.isClear name o.barrier) = true) := by
      simp [hclear]
    refine hfinished ((s.properties name).map .properties) ?_
    rw [hrequest]
    change (s.describe name wait o.barrier).2.1 = _
    rw [describe, if_neg hwaits]
  | _ =>
    rw [hrequest] at hq
    cases hq

end Engine

/-! ## From call to call -/

namespace Scheduler

/-- A store between the calls of a caller who is alone. -/
structure Rested (s : Scheduler) (rs : List Record) : Prop where
  /-- Nothing is under way, and nobody has a turn. -/
  alone : s.Alone
  /-- Nothing is registered. -/
  clear : s.engine.pending.live = []
  /-- The store was not shut down. -/
  isOpen : s.engine.closed = false
  /-- The records of the journal say what it has. -/
  sound : s.engine.Sound rs []
  /-- What waits for the attribute store and what made it is what records commit. -/
  tidy : s.engine.Tidy (Record.Storable rs)
  /-- Every entry is in order. -/
  inOrder : s.engine.InOrder
  /-- The journal takes everything. -/
  safe : s.engine.log.Safe

variable {s : Scheduler} {rs : List Record} {request : Request}

/-- A store that was opened over nothing, with an attribute store in memory or over a log. -/
def start (config : Config) (logged : Bool) (clock : AttributeValue) : Scheduler :=
  ofEngine (Traffic.start config logged clock).engine

/-- A new store rests, without records. -/
theorem rested_start (config : Config) (logged : Bool) (clock : AttributeValue) :
    (start config logged clock).Rested [] where
  alone := ⟨idle_ofEngine _, fun _ _ he => by cases he⟩
  clear := rfl
  isOpen := rfl
  sound := (Traffic.sound_start config logged clock).engine
  tidy := Traffic.tidy_start config logged clock _
  inOrder := fun _ _ he => by cases he
  safe := ⟨rfl, rfl, rfl⟩

/-- A valid request that asks for no change is answered as its operation ends. -/
theorem Rested.ask_of_ends (h : s.Rested rs)
    (hvalid : request.validate s.engine.config patience = .ok ()) {n : Nat} {s' : Engine}
    {result : Except SegmentError Answer} (hn : n < 8)
    (he : Engine.Ends n { s.engine with
        pending := (s.engine.pending.registerAll request.names).1 }
      ⟨request, s.engine.pending.barrier, (s.engine.pending.registerAll request.names).2, .accepted⟩
      s' result) :
    (s.ask request).2 = result ∧ (s.ask request).1.engine = s' ∧ (s.ask request).1.Idle :=
  h.alone.idle.ask (Engine.accept_of_validate hvalid) rfl he hn

/-- A call that asks for no change leaves the records of the journal and the configuration. -/
theorem Rested.query (h : s.Rested rs) (hq : request.changes = false) :
    (s.ask request).1.Rested rs ∧ (s.ask request).1.engine.config = s.engine.config := by
  cases hvalid : request.validate s.engine.config patience with
  | error e =>
    have hrejected : s.engine.accept request patience = .error e := by
      rw [Engine.accept, hvalid]
    rw [ask_of_rejected hrejected]
    exact ⟨h, rfl⟩
  | ok u =>
    have halike := Engine.Alike.withPending s.engine (s.engine.pending.registerAll request.names).1
    have haccepted := h.sound.alike halike
    obtain ⟨n, s', result, hn, hends⟩ := Engine.exists_ends
      (s := { s.engine with pending := (s.engine.pending.registerAll request.names).1 })
      (o := ⟨request, s.engine.pending.barrier, (s.engine.pending.registerAll request.names).2,
        .accepted⟩) rfl hq fun name => Pending.isClear_registerAll h.clear _ name
    obtain ⟨-, hengine, hidle⟩ := h.ask_of_ends hvalid hn hends
    obtain ⟨⟨rest', hcont⟩, hturns, entries, hs'⟩ :=
      hends.quiet haccepted.sound ⟨hq, Or.inl rfl⟩ trivial
    have horder := hends.inOrder (halike.rests.inOrder h.inOrder)
    have hall := haccepted.trans hcont
    have hlog : s'.log = s.engine.log := by rw [hs']
    have hrest := hall.sound.holds.rest_eq_nil (hlog ▸ h.safe)
    subst hrest
    refine ⟨⟨⟨hidle, ?_⟩, ?_, ?_, ?_, ?_, ?_, ?_⟩, ?_⟩ <;> rw [hengine]
    · exact hturns h.alone.turns
    · rw [hs']
      exact Pending.live_of_releaseAll h.clear request.names
    · rw [hs']
      exact h.isOpen
    · exact hall.sound
    · exact hall.tidy h.tidy
    · exact horder
    · rw [hlog]
      exact h.safe
    · rw [hs']

/-- A call for a change leaves nothing registered and every entry in order. -/
theorem Rested.ask_frame (h : s.Rested rs) (hq : request.changes = true) :
    (s.ask request).1.engine.pending.live = [] ∧ (s.ask request).1.engine.InOrder := by
  cases hvalid : request.validate s.engine.config patience with
  | error e =>
    have hrejected : s.engine.accept request patience = .error e := by
      rw [Engine.accept, hvalid]
    rw [ask_of_rejected hrejected]
    exact ⟨h.clear, h.inOrder⟩
  | ok u =>
    let engine : Engine := { s.engine with
      pending := (s.engine.pending.registerAll request.names).1 }
    let o : Operation :=
      ⟨request, s.engine.pending.barrier, (s.engine.pending.registerAll request.names).2, .accepted⟩
    have halike : s.engine.Alike engine := .withPending s.engine _
    have hturns : engine.Turns [] := h.alone.turns
    obtain ⟨⟨result, hresult⟩, -⟩ := hturns.begin (halike.agrees h.sound.agrees)
      h.sound.wellFormed o.barrier hq fun target source hmerge =>
        Request.ne_of_validate (hmerge ▸ hvalid)
    have hends : engine.Ends 0 o (engine.advance o).1 result := Engine.ends_of_finished rfl hresult
    obtain ⟨-, hengine, -⟩ := h.ask_of_ends hvalid (by decide) hends
    rw [hengine]
    refine ⟨?_, hends.inOrder (halike.rests.inOrder h.inOrder)⟩
    have hfinished : (engine.advancePhase o).2.1 = .finished result := hresult
    change ((engine.advancePhase o).1.settle
      { o with phase := (engine.advancePhase o).2.1 }).pending.live = []
    rw [Engine.settle, hfinished]
    change ((engine.advancePhase o).1.pending.releaseAll o.registrations).live = []
    rw [engine.advancePhase_pending]
    exact Pending.live_of_releaseAll h.clear request.names

/-- A call for a change leaves the store rested, with the record that it commits. -/
theorem Rested.change (h : s.Rested rs) (hq : request.changes = true) :
    ∃ new, (s.ask request).1.Rested (rs ++ new) ∧
      s.engine.Outcome request rs [] (s.ask request).1.engine new (s.ask request).2 ∧
      (s.ask request).1.engine.config = s.engine.config := by
  obtain ⟨halone, hcalled⟩ := h.alone.ask h.sound.agrees h.sound.wellFormed h.isOpen hq
  obtain ⟨hconfig, hclosed, hsafe⟩ := hcalled.frame
  obtain ⟨new, houtcome⟩ := h.sound.called hcalled
  obtain ⟨rest', hcont⟩ := houtcome.continues
  have hrest := hcont.sound.holds.rest_eq_nil (hsafe h.safe)
  subst hrest
  obtain ⟨hclear, horder⟩ := h.ask_frame hq
  exact ⟨new, ⟨halone, hclear, hclosed.trans h.isOpen, hcont.sound, hcont.tidy h.tidy, horder,
    hsafe h.safe⟩, houtcome, hconfig⟩

/-- An eviction leaves the store rested. -/
theorem Rested.evict (h : s.Rested rs) (name : String) :
    (s.evict name).1.Rested rs ∧ (s.evict name).1.engine.config = s.engine.config := by
  have hcont := h.sound.evict name
  have hrests : s.engine.Rests (s.engine.evict name).1 := .evict h.sound.agrees.outlines name
  have hframe : ∃ entries, (s.engine.evict name).1 = { s.engine with entries } := by
    unfold Engine.evict
    cases s.engine.resolve name <;> exact ⟨_, rfl⟩
  have hturns : (s.engine.evict name).1.Turns [] := by
    unfold Engine.evict
    cases hr : s.engine.resolve name with
    | error e => exact h.alone.turns
    | ok entry =>
      obtain ⟨-, -, -, hentry, -⟩ := h.sound.agrees.of_resolve hr
      intro id e he
      change (s.engine.entries.insert entry.id _).get? id = some e at he
      rw [Table.get?_insert] at he
      split at he
      · next hid =>
        rw [hid, ← Option.some.inj he]
        exact h.alone.turns _ entry hentry
      · exact h.alone.turns id e he
  obtain ⟨entries, hentries⟩ := hframe
  have hengine : (s.evict name).1.engine = (s.engine.evict name).1 := rfl
  refine ⟨⟨⟨⟨h.alone.idle.ready, h.alone.idle.returned, h.alone.idle.watching,
    h.alone.idle.gate⟩, hturns⟩, ?_, ?_, hcont.sound, hcont.tidy h.tidy,
    hrests.inOrder h.inOrder, ?_⟩, ?_⟩ <;> rw [hengine, hentries]
  · exact h.clear
  · exact h.isOpen
  · exact h.safe

end Scheduler

end Segments
