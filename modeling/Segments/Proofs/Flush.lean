import Segments.Proofs.Fidelity

/-!
# A flush that fails

A record is written before it is flushed. When the flush fails, the operation ends with an error
and the open store stays as it was, but the frame of the record is whole and stays in the journal:
a store that is opened over it has the change that was reported as failed.
-/

namespace Segments

/-- The error of a flush that fails. -/
def SegmentError.failedFlush : SegmentError := .storage (simulatedCrash "flush")

/-- An append never fails with the error of a flush. -/
theorem Crashable.append_ne_flush (c : Crashable Memory) (data : Bytes) :
    (ByteStore.append c data).2 ≠ .error (simulatedCrash "flush") := by
  change (c.append data).2 ≠ _
  unfold append
  cases c.switch.fate data.length with
  | rejected =>
    simp only [ne_eq, Except.error.injEq]
    decide
  | torn kept =>
    simp only [ne_eq, Except.error.injEq]
    decide
  | written => exact fun h => by cases h

namespace OperationLog

variable {log : OperationLog} {rs : List Record} {rest : Bytes} {r : Record}

/-- When the flush fails, the device had not crashed before, and all bytes were written. -/
theorem write_of_flush {frame : Bytes} (h : (log.write frame).2 = .error .failedFlush) :
    log.device.switch.crashed = false ∧ (log.write frame).1.bytes = log.bytes ++ frame := by
  have happended := Crashable.appended log.device frame
  have hne := Crashable.append_ne_flush log.device frame
  unfold write at h ⊢
  revert h happended hne
  generalize ByteStore.append log.device frame = appended
  obtain ⟨device, result⟩ := appended
  intro h happended hne
  cases happended with
  | rejected e inner crashed =>
    cases h
    exact absurd rfl hne
  | torn e kept before short inner crashed =>
    cases h
    exact absurd rfl hne
  | written n before inner crashed =>
    refine ⟨before, ?_⟩
    simp only at h ⊢
    split
    · rcases flush_cases device with ⟨-, d, e, hd, hinner, -⟩ | ⟨-, hok⟩
      · rw [hd]
        exact (congrArg Memory.data hinner).trans inner
      · rw [hok]
        exact inner
    · exact inner

/-- When the flush of a record fails, its frame is in the journal all the same. -/
theorem Holds.append_of_flush (h : log.Holds rs rest)
    (hfail : (log.append r).2 = .error .failedFlush) :
    r.Framable ∧ (log.append r).1.bytes = Frame.wholes (rs ++ [r]) := by
  unfold OperationLog.append at hfail ⊢
  cases hframe : Frame.encode r with
  | error e =>
    -- what cannot be encoded never comes to the device
    simp only [hframe, Except.error.injEq] at hfail
    unfold Frame.encode Record.encode at hframe
    split at hframe
    · next he =>
      split at he <;> cases he
      cases hframe
      cases hfail
    · split at hframe <;> cases hframe
      cases hfail
  | ok frame =>
    obtain ⟨hr, rfl⟩ := Frame.encode_eq_ok_iff.mp hframe
    simp only [hframe] at hfail
    obtain ⟨hsound, hbytes⟩ := write_of_flush hfail
    have hrest : rest = [] := Decidable.byContradiction fun hne =>
      Bool.false_ne_true (hsound.symm.trans (h.crashed hne))
    refine ⟨hr, hbytes.trans ?_⟩
    rw [h.bytes, hrest, List.append_nil, Frame.wholes_append, Frame.wholes_singleton]

end OperationLog

theorem SegmentState.requireReadable_ne_storage (state : SegmentState) (name : String)
    (e : StorageError) : state.requireReadable name ≠ .error (.storage e) := by
  cases state <;> simp [requireReadable]

theorem SegmentState.requireWritable_ne_storage (state : SegmentState) (name : String)
    (e : StorageError) : state.requireWritable name ≠ .error (.storage e) := by
  cases state <;> simp [requireWritable, requireReadable]

theorem Verdict.ofCheck_eq_refuse {α : Type} {check : Except SegmentError α}
    {accept : α → Verdict} {e : SegmentError} :
    ofCheck check accept = .refuse e ↔
      check = .error e ∨ ∃ v, check = .ok v ∧ accept v = .refuse e := by
  cases check <;> simp [ofCheck]

namespace Engine

variable {s : Engine} {rs : List Record} {rest : Bytes} {action : Action} {o : Operation}

theorem evaluate_ne_storage (s : Engine) (entry : Entry) (updates : List Update)
    (e : StorageError) : s.evaluate entry updates ≠ .error (.storage e) := by
  unfold evaluate
  cases Batch.evaluate (s.valueOf entry) updates <;> simp

theorem checkAppend_ne_storage (entry : Entry) (expected : Option Nat) (e : StorageError) :
    checkAppend entry expected ≠ .error (.storage e) := by
  unfold checkAppend
  cases h : entry.state.requireWritable entry.name with
  | error err =>
    rintro h'
    rw [Except.error.inj h'] at h
    exact SegmentState.requireWritable_ne_storage _ _ _ h
  | ok u =>
    cases expected with
    | none => simp
    | some offset => by_cases ho : offset = entry.metadata.length <;> simp [ho]

/-- No change is refused for the device: what is decided from the state alone never fails there. -/
theorem propose_ne_storage (s : Engine) (action : Action) (e : StorageError) :
    s.propose action ≠ .refuse (.storage e) := by
  intro h
  cases action with
  | create name updates =>
    simp only [propose, proposeBy, evaluation, proposeCreate] at h
    split at h
    · cases h
    · rcases Verdict.ofCheck_eq_refuse.mp h with h | ⟨v, -, h⟩
      · exact evaluate_ne_storage _ _ _ _ h
      · cases h
  | append id data updates expected =>
    rcases Verdict.ofCheck_eq_refuse.mp h with h | ⟨v, -, h⟩
    · exact checkAppend_ne_storage _ _ _ h
    · rcases Verdict.ofCheck_eq_refuse.mp h with h | ⟨v, -, h⟩
      · exact evaluate_ne_storage _ _ _ _ h
      · cases h
  | update name id updates =>
    rcases Verdict.ofCheck_eq_refuse.mp h with h | ⟨v, -, h⟩
    · exact SegmentState.requireWritable_ne_storage _ _ _ h
    · split at h
      · cases h
      · rcases Verdict.ofCheck_eq_refuse.mp h with h | ⟨v, -, h⟩
        · exact evaluate_ne_storage _ _ _ _ h
        · cases h
  | sealing name id =>
    rcases Verdict.ofCheck_eq_refuse.mp h with h | ⟨v, -, h⟩
    · exact SegmentState.requireReadable_ne_storage _ _ _ h
    · split at h <;> cases h
  | truncate name id offset =>
    rcases Verdict.ofCheck_eq_refuse.mp h with h | ⟨v, -, h⟩
    · exact SegmentState.requireReadable_ne_storage _ _ _ h
    · split at h
      · cases h
      · split at h <;> cases h
  | delete name id =>
    simp only [propose, proposeBy, proposeDelete] at h
    split at h <;> cases h
  | merge target source =>
    rcases Verdict.ofCheck_eq_refuse.mp h with h | ⟨v, -, h⟩
    · exact SegmentState.requireWritable_ne_storage _ _ _ h
    · rcases Verdict.ofCheck_eq_refuse.mp h with h | ⟨v, -, h⟩
      · exact SegmentState.requireReadable_ne_storage _ _ _ h
      · split at h <;> cases h

/-- A change whose flush fails was decided on, and its frame is in the journal. -/
theorem Sound.execute_of_flush (h : s.Sound rs rest)
    (hfail : (s.execute action).2.2 = .error .failedFlush) :
    ∃ record answer, s.propose action = .commit record answer ∧ record.Framable ∧
      (s.execute action).1.log.bytes = Frame.wholes (rs ++ [record]) := by
  have htouched := (h.alike (.touchConsulted s action)).sound
  have hexecutes := s.executes action
  generalize (s.execute action).1 = s', (s.execute action).2.2 = result at hexecutes hfail ⊢
  cases hexecutes with
  | refused proposed =>
    exact absurd (Except.error.inj hfail ▸ proposed) (propose_ne_storage s action _)
  | idles proposed => cases hfail
  | @fails record answer log e proposed appended =>
    obtain rfl := Except.error.inj hfail
    have happend := htouched.holds.append_of_flush (r := record)
    rw [appended] at happend
    exact ⟨record, answer, proposed, happend rfl⟩
  | commits proposed appended => cases hfail

/-- A change of a segment that no name stands for is not refused for the device either. -/
theorem begin_ne_storage {request : Request} (ha : request.action? s = none)
    (hq : request.changes = true) (barrier : Nat) (e : StorageError) :
    (s.begin barrier request).2.1 ≠ .finished (.error (.storage e)) := by
  -- all of them find the store shut down, or a name that stands for nothing
  have hchecks : ∀ {name : String} (next : Entry → Engine × Phase × List Event),
      s.resolve? name = none →
      (Phase.ofCheck s s.requireOpen fun () =>
        Phase.ofCheck s (s.resolve name) next).2.1 ≠ .finished (.error (.storage e)) := by
    intro name next hn
    rw [requireOpen_eq, resolve, hn]
    cases s.closed <;> simp [Phase.ofCheck]
  cases request with
  | create name updates => cases ha
  | append name data updates => exact hchecks _ (by simpa [Request.action?] using ha)
  | appendAt name offset data updates => exact hchecks _ (by simpa [Request.action?] using ha)
  | update name updates => exact hchecks _ (by simpa [Request.action?] using ha)
  | sealing name => exact hchecks _ (by simpa [Request.action?] using ha)
  | delete name => exact hchecks _ (by simpa [Request.action?] using ha)
  | truncate name offset => exact hchecks _ (by simpa [Request.action?] using ha)
  | merge target source =>
    cases ht : s.resolve? target with
    | none => exact hchecks _ ht
    | some t =>
      cases hu : s.resolve? source with
      | none =>
        simp only [begin, mergeInTurn, requireOpen_eq, resolve, ht, hu]
        cases s.closed <;> simp [Phase.ofCheck]
      | some u => simp [Request.action?, ht, hu] at ha
  | lookup name ids cache => cases hq
  | read name offset maxLength => cases hq
  | info name wait => cases hq

/-- An operation that fails for the device was about to make a change. -/
theorem exists_action_of_storage (hq : o.request.changes = true)
    (hpending : o.phase.isFinished = false) {e : StorageError}
    (hfail : (s.advancePhase o).2.1 = .finished (.error (.storage e))) :
    ∃ action, o.action? s = some action := by
  rw [← Option.ne_none_iff_exists']
  intro ha
  unfold advancePhase at hfail
  unfold Operation.action? at ha
  cases hphase : o.phase with
  | accepted =>
    simp only [hphase] at ha hfail
    exact begin_ne_storage ha hq _ _ hfail
  | inLine action held place wanted =>
    simp only [hphase] at ha
    cases ha
  | fetching id l cache =>
    simp only [hphase] at hfail
    cases hfail
  | fetched id l cache values =>
    simp only [hphase, finishLookup] at hfail
    split at hfail <;> cases hfail
  | finished result =>
    rw [hphase] at hpending
    cases hpending

/-- An operation that fails for the device has tried to make its change. -/
theorem Goes.executed_of_storage {s' : Engine} {phase : Phase} {e : StorageError}
    (h : Goes s o s' phase) (ha : o.action? s = some action)
    (hphase : phase = .finished (.error (.storage e))) :
    ∃ s₁, s.Alike s₁ ∧ s₁.closed = false ∧ (s₁.execute action).1.Alike s' ∧
      (s₁.execute action).2.2 = .error (.storage e) := by
  have hopen : s.closed = false := by
    by_contra hc
    rw [Bool.not_eq_false] at hc
    cases h with
    | waits alike => cases hphase
    | queues held place wanted asked alike => cases hphase
    | closes closed alike => cases hphase
    | answers result none fails alike => simp [none] at ha
    | executes asked alike isOpen after => simp [alike.closed, hc] at isOpen
    | begins ids cache found readable => cases hphase
    | reads phase => cases hphase
    | ends phase => simp [Operation.action?, phase] at ha
    | stays phase => simp [Operation.action?, phase] at ha
  obtain ⟨s₁, halike, hafter, hresult⟩ := h.executed ha hopen hphase
  exact ⟨s₁, halike, halike.closed.trans hopen, hafter, hresult.symm⟩

/-- Engines that differ in turns and recency only propose the same records. -/
theorem Alike.proposes {s' : Engine} {a : Account} (h : s.Alike s') (hs : s.Agrees a)
    (hw : a.WellFormed) {record : Record} (hp : s'.Proposes action record) :
    s.Proposes action record := by
  cases action with
  | delete name id =>
    cases hp with
    | delete named live =>
      have hentry := h.entry_alike id
      have hid : (s'.entry id).id = (s.entry id).id := hentry.id
      rw [hid] at named ⊢
      rw [h.names] at named
      exact .delete named fun hd => live (hentry.state.trans hd)
  | _ =>
    exact (h.agrees hs).proposes hs h.clock hw (fun _ _ hd => by cases hd) hp

end Engine

namespace Traffic

variable {t : Traffic} {rs : List Record} {rest : Bytes} {i : Nat} {o : Operation}

/-- An operation fails because the flush fails: the open store looks as before, but one that is
opened over the journal and what is left of the attribute store has the change. -/
theorem Sound.openStore_of_flush (h : t.Sound rs rest) (ht : t.engine.Tidy (Record.Storable rs))
    (ho : t.operations[i]? = some o) (hq : o.request.changes = true)
    (hpending : o.phase.isFinished = false)
    (hfail : (t.engine.advance o).2.1.phase = .finished (.error .failedFlush))
    {left : AttributeContents} (hleft : (t.step (.advance i)).engine.Leaves left)
    (config : Config) (clock : AttributeValue) :
    (t.step (.advance i)).engine.SameView t.engine ∧
    ∃ action record answer, o.action? t.engine = some action ∧
      t.engine.propose action = .commit record answer ∧
      ∃ s, (Contents.openStore ⟨(t.step (.advance i)).engine.log.bytes, left⟩ config clock).2.2 =
          .ok s ∧ s.closed = false ∧ s.SameView (t.engine.enact action.callerName record).1 := by
  have hw := h.engine.wellFormed
  -- the step commits nothing, so the store still agrees with the account of before
  obtain ⟨new, rest', hfollows⟩ := h.advance i
  have hnew : new = [] := by
    have hcommits := hfollows.commits
    simp only [Commits, ho] at hcommits
    cases hcommits with
    | nothing idle => rfl
    | record asked alike proposed done =>
      rw [hfail] at done
      cases done
  subst hnew
  have hsound := hfollows.sound
  have htidy := hfollows.tidy ht
  rw [List.append_nil] at hsound htidy
  refine ⟨hsound.engine.agrees.sameView h.engine.agrees hw, ?_⟩
  -- the change was tried, and its frame is in the journal
  obtain ⟨action, ha⟩ := Engine.exists_action_of_storage hq hpending hfail
  obtain ⟨s₁, halike, hopen, hafter, hresult⟩ :=
    (t.engine.advancePhase_goes o).executed_of_storage ha hfail
  have hbefore := (h.engine.alike halike).sound
  obtain ⟨record, answer, hproposed, hframable, hbytes⟩ := hbefore.execute_of_flush hresult
  have hproposes := halike.proposes h.engine.agrees hw
    (Engine.proposes_iff.mpr ⟨answer, hproposed⟩)
  obtain ⟨answer', hproposed'⟩ := Engine.proposes_iff.mp hproposes
  refine ⟨action, record, answer', ha, hproposed', ?_⟩
  have hstep : (t.step (.advance i)).engine = (t.engine.advance o).1 := by
    simp only [Traffic.step, ho]
  have hjournal : (t.step (.advance i)).engine.log.bytes = Frame.wholes (rs ++ [record]) := by
    rw [hstep, ← hbytes, ← hafter.log]
    exact congrArg OperationLog.bytes (Engine.Alike.settle _ _).log
  -- so it is replayed
  have hadmits := h.engine.agrees.admits hw hproposes
  have hadmitted := h.engine.admitted.snoc hadmits
  have hall := h.engine.holds.framable_snoc hframable
  have hrecords : (t.step (.advance i)).engine.log.records = rs ++ [record] :=
    OperationLog.records_of_bytes hall (by rw [hjournal, List.append_nil]) Frame.torn_nil
  obtain ⟨store, events, hstore, htaking, hkeys⟩ := hleft.openStore htidy ⟨_, hrecords.symm⟩
  rw [hrecords] at hkeys
  obtain ⟨s, hs, -, -, hsopen, hagrees, -⟩ :=
    Engine.openStore_agrees hall hadmitted Frame.torn_nil htaking hkeys config clock
  have hdelete : ∀ id, record = .delete id →
      (Account.after rs).names action.callerName = some id := by
    rintro id rfl
    rw [← h.engine.agrees.names]
    exact Engine.names_of_proposes_delete hproposes
  have henacted := (h.engine.agrees.enact hw hadmits hdelete).agrees
  rw [← Account.after_append_singleton] at henacted
  refine ⟨s, ?_, hsopen, hagrees.sameView henacted (Account.wellFormed_after hadmitted)⟩
  rw [List.append_nil] at hs
  simp only [Contents.openStore, hstore, hjournal]
  exact hs

/-- Whatever has happened to a store: when an operation fails because the flush of its record
fails, the open store looks as before the operation, but a store that is opened over the journal
looks as after it. -/
theorem openStore_of_failedFlush (config config' : Config) (logged : Bool)
    (clock clock' : AttributeValue) (moves : List Move)
    (ho : ((start config logged clock).run moves).operations[i]? = some o)
    (hq : o.request.changes = true) (hpending : o.phase.isFinished = false)
    (hfail : (((start config logged clock).run moves).engine.advance o).2.1.phase =
      .finished (.error .failedFlush))
    {left : AttributeContents}
    (hleft : (((start config logged clock).run moves).step (.advance i)).engine.Leaves left) :
    let before := (start config logged clock).run moves
    let after := before.step (.advance i)
    after.engine.SameView before.engine ∧
    ∃ action record answer, o.action? before.engine = some action ∧
      before.engine.propose action = .commit record answer ∧
      ∃ s, (Contents.openStore ⟨after.engine.log.bytes, left⟩ config' clock').2.2 = .ok s ∧
        s.closed = false ∧ s.SameView (before.engine.enact action.callerName record).1 := by
  intro before after
  obtain ⟨rs, rest, hsound, -, htidy⟩ := (sound_start config logged clock).run moves
  exact hsound.openStore_of_flush (htidy (tidy_start config logged clock _)) ho hq hpending hfail
    hleft config' clock'

/-- A segment is created, flushes begin to fail, and an append is accepted. -/
def unflushed : Traffic := (start .standard false 0).run
  [.submit (.create "a" []) 1, .advance 0, .failFlush true, .submit (.append "a" [0xFF] []) 1]

/-- The append. -/
def unflushedAppend : Operation := ⟨.append "a" [0xFF] [], 1, [⟨"a", 2⟩], .accepted⟩

/-- With its record the segment would have one byte. -/
theorem length_unflushed {action : Action} {record : Record} {answer : Answer}
    (ha : unflushedAppend.action? unflushed.engine = some action)
    (hp : unflushed.engine.propose action = .commit record answer) :
    ((unflushed.engine.enact action.callerName record).1.live? 1).map (fun e => e.view.length) =
      some 1 := by
  have haction : unflushedAppend.action? unflushed.engine = some (.append 1 [0xFF] [] none) := rfl
  obtain rfl := Option.some.inj (haction.symm.trans ha)
  have hrecord : unflushed.engine.propose (.append 1 [0xFF] [] none) =
      .commit (.append 1 0 [0xFF] []) .done := by decide +kernel
  obtain ⟨rfl, rfl⟩ := Verdict.commit.inj (hrecord.symm.trans hp)
  decide +kernel

/-- A store is opened with the byte that could not be flushed. -/
theorem openStore_of_failedFlush_of_append : ∃ s, (Contents.openStore
    ⟨(unflushed.step (.advance 1)).engine.log.bytes, .index .empty⟩ .standard 1).2.2 = .ok s ∧
    (s.live? 1).map (fun e => e.view.length) = some 1 := by
  have hleft : (unflushed.step (.advance 1)).engine.Leaves (.index .empty) :=
    .contents rfl fun _ _ _ hx => by cases hx
  obtain ⟨-, action, record, answer, ha, hp, s, hs, -, hview⟩ :=
    openStore_of_failedFlush .standard .standard false 0 1 _
      (show unflushed.operations[1]? = some unflushedAppend from rfl) rfl rfl rfl hleft
  refine ⟨s, hs, ?_⟩
  have hlength := congrArg (Option.map SegmentView.length) (hview.segments 1)
  rw [Option.map_map, Option.map_map] at hlength
  exact hlength.trans (length_unflushed ha hp)

/-- An append ends with the error of a failed flush, and yet a store that is opened over the journal
does not look as before it. -/
theorem openStore_of_append_unflushed :
    ((unflushed.engine.advance unflushedAppend).2.1.phase = .finished (.error .failedFlush)) ∧
    ∃ s, (Contents.openStore ⟨(unflushed.step (.advance 1)).engine.log.bytes, .index .empty⟩
      .standard 1).2.2 = .ok s ∧ ¬s.SameView unflushed.engine := by
  obtain ⟨rs, rest, hsound, -, htidy⟩ := (sound_start .standard false 0).run
    [.submit (.create "a" []) 1, .advance 0, .failFlush true, .submit (.append "a" [0xFF] []) 1]
  have hleft : (unflushed.step (.advance 1)).engine.Leaves (.index .empty) :=
    .contents rfl fun _ _ _ hx => by cases hx
  obtain ⟨-, action, record, answer, ha, hp, s, hs, -, hview⟩ :=
    hsound.openStore_of_flush (htidy (tidy_start .standard false 0 _))
      (show unflushed.operations[1]? = some unflushedAppend from rfl) rfl rfl rfl hleft .standard 1
  refine ⟨rfl, s, hs, fun hbefore => ?_⟩
  have hlength := congrArg (Option.map SegmentView.length)
    ((hbefore.segments 1).symm.trans (hview.segments 1))
  rw [Option.map_map, Option.map_map] at hlength
  have hnone : (unflushed.engine.live? 1).map (fun e => e.view.length) = some 0 := by
    decide +kernel
  have hzero := hnone.symm.trans (hlength.trans (length_unflushed ha hp))
  cases hzero

end Traffic

end Segments
