import Segments.Proofs.History

/-!
# Operations that fail

An operation that changes the store decides first, writes its record next, and changes something
only then. So one that ends in an error has changed nothing, at whichever of its points it failed,
but for the recency of cached values and for the bytes of a record that the journal did not take.
This holds for any attribute store, also for one that cannot always be read: `evaluationBy` is the
evaluation of a batch over whatever a read gives.
-/

namespace Segments

/-- Updates look at the current value only if their rule does. -/
theorem Update.evaluate_congr (u : Update) {current current' : AttributeValue}
    (h : u.rule.needsCurrent = true → current' = current) :
    u.evaluate current' = u.evaluate current := by
  cases hrule : u.rule with
  | replace => simp only [Update.evaluate, hrule]
  | _ => rw [h (by rw [hrule]; rfl)]

namespace Batch

variable {current current' : AttributeId → AttributeValue} {updates : List Update}

theorem evaluate_congr
    (h : ∀ u ∈ updates, u.rule.needsCurrent = true → current' u.id = current u.id) :
    evaluate current' updates = evaluate current updates := by
  induction updates with
  | nil => rfl
  | cons u rest ih =>
    rw [evaluate, evaluate, u.evaluate_congr (h u List.mem_cons_self),
      ih fun v hv => h v (List.mem_cons_of_mem u hv)]

theorem consulted_congr
    (h : ∀ u ∈ updates, u.rule.needsCurrent = true → current' u.id = current u.id) :
    consulted current' updates = consulted current updates := by
  induction updates with
  | nil => rfl
  | cons u rest ih =>
    rw [consulted, consulted, u.evaluate_congr (h u List.mem_cons_self),
      ih fun v hv => h v (List.mem_cons_of_mem u hv)]

end Batch

namespace Engine

/-- The attributes whose stored values a batch needs: extended ones that memory does not know, if
the rule looks at them. -/
def wanted (entry : Entry) (updates : List Update) : List AttributeId :=
  (updates.filter fun u => u.id.isExtended && u.rule.needsCurrent &&
    (entry.metadata.attributes.resident? u.id).isNone).map Update.id

/-- What is read of an attribute store for a batch; without need nothing is. -/
def fetch (read : SegmentId → List AttributeId → Except SegmentError AttributeValues)
    (entry : Entry) (updates : List Update) : Except SegmentError AttributeValues :=
  if (wanted entry updates).isEmpty then .ok [] else read entry.id (wanted entry updates)

/-- The value of an attribute, given what was read. -/
def valueBy (entry : Entry) (stored : AttributeValues) (x : AttributeId) : AttributeValue :=
  ((entry.metadata.attributes.resident? x).or (stored.lookup x)).getD nullValue

/-- The evaluation of batches over an attribute store whose reads may fail. -/
def evaluationBy (read : SegmentId → List AttributeId → Except SegmentError AttributeValues) :
    Evaluation where
  values entry updates :=
    match fetch read entry updates with
    | .error e => .error e
    | .ok stored =>
      match Batch.evaluate (valueBy entry stored) updates with
      | .error (id, refusal) => .error (.attributeUpdateFailed entry.name id refusal.message)
      | .ok values => .ok values
  consulted entry updates :=
    match fetch read entry updates with
    | .error _ => []
    | .ok stored => Batch.consulted (valueBy entry stored) updates

variable {s s' : Engine}

theorem mem_wanted {entry : Entry} {updates : List Update} {u : Update} (hu : u ∈ updates)
    (hneeds : u.rule.needsCurrent = true) (hcore : u.id.isCore = false)
    (hr : entry.metadata.attributes.resident? u.id = none) : u.id ∈ wanted entry updates :=
  List.mem_map_of_mem (List.mem_filter.mpr ⟨hu, by simp [AttributeId.isExtended, *]⟩)

/-- Reading the store of an engine gives a batch the present values. -/
theorem valueBy_fetch (s : Engine) (entry : Entry) (updates : List Update) :
    ∃ stored, fetch (fun id ids => .ok (s.store.lookup id ids)) entry updates = .ok stored ∧
      ∀ u ∈ updates, u.rule.needsCurrent = true →
        valueBy entry stored u.id = s.valueOf entry u.id := by
  refine ⟨s.store.lookup entry.id (wanted entry updates), ?_, fun u hu hneeds => ?_⟩
  · unfold fetch
    split
    · next hnone =>
      rw [List.isEmpty_iff.mp hnone]
      rfl
    · rfl
  · rw [valueBy, AttributeStore.lookup_lookup, valueOf, AttributeTiers.value]
    cases hr : entry.metadata.attributes.resident? u.id with
    | some v => rfl
    | none =>
      cases hcore : u.id.isCore with
      | false =>
        rw [if_pos (mem_wanted hu hneeds hcore hr)]
        rfl
      | true =>
        have hout : u.id ∉ wanted entry updates := by
          intro hin
          obtain ⟨w, hw, hid⟩ := List.mem_map.mp hin
          have hextended := (List.mem_filter.mp hw).2
          simp [hid, AttributeId.isExtended, hcore] at hextended
        rw [if_neg hout]
        rfl

/-- Over the store of an engine this is the evaluation against the present values. -/
theorem evaluationBy_store (s : Engine) :
    evaluationBy (fun id ids => .ok (s.store.lookup id ids)) = s.evaluation := by
  have hboth : ∀ entry updates,
      (evaluationBy fun id ids => .ok (s.store.lookup id ids)).values entry updates =
        s.evaluate entry updates ∧
      (evaluationBy fun id ids => .ok (s.store.lookup id ids)).consulted entry updates =
        Batch.consulted (s.valueOf entry) updates := by
    intro entry updates
    obtain ⟨stored, hfetch, hvalues⟩ := s.valueBy_fetch entry updates
    constructor
    · rw [evaluate, ← Batch.evaluate_congr hvalues]
      cases hbatch : Batch.evaluate (valueBy entry stored) updates with
      | error failure =>
        obtain ⟨id, refusal⟩ := failure
        simp only [evaluationBy, hfetch, hbatch]
      | ok values => simp only [evaluationBy, hfetch, hbatch]
    · simp only [evaluationBy, hfetch, Batch.consulted_congr hvalues]
  rw [Evaluation.mk.injEq]
  constructor
  · funext entry updates
    exact (hboth entry updates).1
  · funext entry updates
    exact (hboth entry updates).2

end Engine

/-- Entries that only the recency of cached values, turns and readers tell apart. -/
structure Entry.Unchanged (e e' : Entry) : Prop where
  /-- The metadata agree but for the attributes. -/
  metadata : e'.metadata.bare = e.metadata.bare
  /-- The bytes agree. -/
  data : e'.data = e.data
  /-- The same attribute values are resident. -/
  resident : ∀ x, e'.metadata.attributes.cache.peek x = e.metadata.attributes.cache.peek x
  /-- The same values wait for the attribute store. -/
  unstored : e'.metadata.attributes.unstored = e.metadata.attributes.unstored
  /-- Readers were told the same tail. -/
  published : e'.published = e.published

namespace Engine

/-- Stores that have the same, their journals aside. -/
structure Unchanged (s s' : Engine) : Prop where
  /-- The names stand for the same segments. -/
  names : s'.names = s.names
  /-- The next segment gets the same number. -/
  nextId : s'.nextId = s.nextId
  /-- The same segments are there, and they have the same. -/
  entries : ∀ id, Option.Rel Entry.Unchanged (s.entries.get? id) (s'.entries.get? id)
  /-- The attribute stores agree. -/
  store : s'.store = s.store
  /-- All attributes have the same values. -/
  values : ∀ id x, s'.valueOf (s'.entry id) x = s.valueOf (s.entry id) x

/-- The journal of a store after a step that ended in a certain way: it is what it was, unless it
has failed to take a record and that is how the step ended. -/
def Unlogged (s s' : Engine) (result : Option (Except SegmentError Answer)) : Prop :=
  s'.log = s.log ∨
    ∃ record e, s.log.append record = (s'.log, .error e) ∧ result = some (.error e)

variable {s s' s'' : Engine}

theorem Unchanged.refl (s : Engine) : s.Unchanged s := by
  refine ⟨rfl, rfl, fun id => ?_, rfl, fun _ _ => rfl⟩
  cases s.entries.get? id with
  | none => exact .none
  | some e => exact .some ⟨rfl, rfl, fun _ => rfl, rfl, rfl⟩

theorem Unchanged.trans (h : s.Unchanged s') (h' : s'.Unchanged s'') : s.Unchanged s'' := by
  refine ⟨h'.names.trans h.names, h'.nextId.trans h.nextId, fun id => ?_,
    h'.store.trans h.store, fun id x => (h'.values id x).trans (h.values id x)⟩
  have hfirst := h.entries id
  have hsecond := h'.entries id
  generalize s.entries.get? id = e?, s'.entries.get? id = e'?, s''.entries.get? id = e''? at *
  cases hfirst with
  | none => exact hsecond
  | some hfirst =>
    cases hsecond with
    | some hsecond =>
      exact .some ⟨hsecond.metadata.trans hfirst.metadata, hsecond.data.trans hfirst.data,
        fun x => (hsecond.resident x).trans (hfirst.resident x),
        hsecond.unstored.trans hfirst.unstored, hsecond.published.trans hfirst.published⟩

/-- The journal does not count. -/
theorem Unchanged.of_withLog {log : OperationLog} (h : s.Unchanged { s' with log }) :
    s.Unchanged s' :=
  ⟨h.names, h.nextId, h.entries, h.store, h.values⟩

/-- If readers know the present tails, what only recency, turns and readers tell apart is
unchanged. -/
theorem Alike.unchanged (h : s.Alike s') (ho : s.InOrder) : s.Unchanged s' := by
  have ho' : s'.InOrder := h.rests.inOrder ho
  refine ⟨h.names, h.nextId, fun id => ?_, h.store, fun id x => ?_⟩
  · cases he : s.entries.get? id with
    | none =>
      rw [h.noEntry id he]
      exact .none
    | some e =>
      obtain ⟨e', he', halike⟩ := h.entry id e he
      rw [he']
      refine .some ⟨halike.metadata, halike.data, halike.attributes.peek,
        halike.attributes.unstored, ?_⟩
      rw [(ho' id e' he').published, (ho id e he).published]
      exact halike.of_metadata Metadata.tail fun _ => rfl
  · have halike := h.entry_alike id
    rw [valueOf, valueOf, AttributeTiers.value, AttributeTiers.value,
      halike.attributes.resident? x, Entry.id, Entry.id, halike.id, h.store]

theorem Alike.withLog (h : s.Alike s') (log : OperationLog) :
    ({ s with log } : Engine).Alike { s' with log } :=
  ⟨h.config, h.entry, h.noEntry, h.names, h.nextId, rfl, h.store, h.closed, h.clock⟩

/-- A change that fails leaves all but the journal, whatever batches are evaluated over. -/
theorem executeBy_failed (s : Engine) (how : Evaluation) (action : Action) {e : SegmentError}
    (hfailed : (s.executeBy how action).2.2 = .error e) :
    s.Alike { (s.executeBy how action).1 with log := s.log } ∧
      s.Unlogged (s.executeBy how action).1 (some (.error e)) := by
  have htouched : s.Alike (s.touchConsultedBy how action) := .touchConsultedBy s how action
  have hsame : s.Alike { s.touchConsultedBy how action with log := s.log } :=
    htouched.withLog s.log
  unfold executeBy at hfailed ⊢
  simp only at hfailed ⊢
  cases hverdict : s.proposeBy how action with
  | refuse e' => exact ⟨hsame, Or.inl htouched.log⟩
  | idle answer =>
    rw [hverdict] at hfailed
    cases hfailed
  | commit record answer =>
    simp only [hverdict] at hfailed ⊢
    rcases happend : (s.touchConsultedBy how action).log.append record with ⟨log, e' | n⟩
    · simp only [happend] at hfailed ⊢
      obtain rfl := Except.error.inj hfailed
      rw [htouched.log] at happend
      exact ⟨hsame, Or.inr ⟨record, e', happend, rfl⟩⟩
    · simp only [happend] at hfailed
      cases hfailed

end Engine

/-- An operation changes the store, and so never looks attributes up. -/
def Operation.Writes (o : Operation) : Prop :=
  o.request.changes = true ∧
    match o.phase with
    | .fetching .. | .fetched .. => False
    | _ => True

namespace Engine

variable {s s' : Engine} {o : Operation} {phase : Phase}

theorem Goes.writes (h : Goes s o s' phase) (hw : o.Writes) :
    ({ o with phase } : Operation).Writes := by
  refine ⟨hw.1, ?_⟩
  cases h with
  | begins ids cache found readable quiet =>
    rw [hw.1] at quiet
    cases quiet
  | reads hphase =>
    have hnot := hw.2
    rw [hphase] at hnot
    exact hnot.elim
  | ends hphase =>
    have hnot := hw.2
    rw [hphase] at hnot
    exact hnot.elim
  | _ => trivial

/-- An operation that changes the store still does when it has come to a turn. -/
theorem writes_comeToTurn (s : Engine) (hw : o.Writes) :
    ({ o with phase := (s.comeToTurn o).2 } : Operation).Writes := by
  rcases s.comeToTurn_cases o with hphase | ⟨_, _, _, _, hphase, -⟩
  · rw [hphase]
    exact hw
  · rw [hphase]
    exact ⟨hw.1, trivial⟩

/-- An operation that changes the store has changed nothing yet where it waits, and nothing where
it fails. -/
theorem Goes.failed (h : Goes s o s' phase) (hw : o.Writes)
    (hok : ∀ answer, phase ≠ .finished (.ok answer)) :
    s.Alike { s' with log := s.log } ∧ s.Unlogged s' phase.result? := by
  cases h with
  | waits alike => exact ⟨alike.withLog s.log, Or.inl alike.log⟩
  | queues held place wanted asked alike => exact ⟨alike.withLog s.log, Or.inl alike.log⟩
  | closes closed alike => exact ⟨alike.withLog s.log, Or.inl alike.log⟩
  | answers result none fails alike => exact ⟨alike.withLog s.log, Or.inl alike.log⟩
  | @executes s₁ _ action asked alike isOpen after =>
    cases hresult : (s₁.execute action).2.2 with
    | ok answer => exact absurd (by rw [hresult]) (hok answer)
    | error e =>
      obtain ⟨hsame, hlog⟩ := executeBy_failed s₁ s₁.evaluation action hresult
      refine ⟨((alike.withLog s.log).trans (hsame.withLog s.log)).trans (after.withLog s.log), ?_⟩
      rcases hlog with hlog | ⟨record, e', happend, hresult'⟩
      · exact Or.inl (after.log.trans (hlog.trans alike.log))
      · refine Or.inr ⟨record, e', ?_, hresult'⟩
        rw [← alike.log, after.log]
        exact happend
  | begins ids cache found readable quiet =>
    rw [hw.1] at quiet
    cases quiet
  | reads hphase =>
    have hnot := hw.2
    rw [hphase] at hnot
    exact hnot.elim
  | ends hphase =>
    have hnot := hw.2
    rw [hphase] at hnot
    exact hnot.elim
  | stays hphase => exact ⟨.refl s, Or.inl rfl⟩

end Engine

/-- Whether a move is one of an operation: it is accepted, goes on, comes to a turn or is given
up. -/
def Move.concerns (m : Move) (i : Nat) : Prop :=
  match m with
  | .submit .. => True
  | .advance j | .pause j | .abandon j _ => j = i
  | _ => False

namespace Traffic

variable {t : Traffic} {i : Nat} {o : Operation} {m : Move}
  {result : Except SegmentError Answer}

/-- A move of an operation that does not succeed with it leaves all as it was. -/
theorem step_failed (ho : t.operations[i]? = some o) (hw : o.Writes)
    (horder : t.engine.InOrder) (hm : m.concerns i)
    (hok : ∀ answer, (t.step m).result? i ≠ some (.ok answer)) :
    t.engine.Unchanged (t.step m).engine ∧
      t.engine.Unlogged (t.step m).engine ((t.step m).result? i) := by
  obtain ⟨hi, -⟩ := List.getElem?_eq_some_iff.mp ho
  cases m with
  | submit request timeout =>
    cases ha : t.engine.accept request timeout with
    | error e =>
      simp only [step, ha]
      exact ⟨.refl _, Or.inl rfl⟩
    | ok accepted =>
      obtain ⟨-, -, -, pending, hpending⟩ := Engine.accept_eq_ok ha
      have halike := Engine.Alike.withPending t.engine pending
      rw [← hpending] at halike
      simp only [step, ha]
      exact ⟨halike.unchanged horder, Or.inl halike.log⟩
  | advance j =>
    obtain rfl : j = i := hm
    have hresult : (t.step (.advance j)).result? j = (t.engine.advancePhase o).2.1.result? := by
      simp only [result?, step, ho, List.getElem?_set_self hi]
      rfl
    rw [hresult] at hok ⊢
    obtain ⟨hsame, hlog⟩ := (t.engine.advancePhase_goes o).failed hw fun answer hphase =>
      hok answer (Phase.result?_eq_some.mpr hphase)
    have hsettled := Engine.Alike.settle (t.engine.advancePhase o).1
      { o with phase := (t.engine.advancePhase o).2.1 }
    have hunchanged := (hsame.trans (hsettled.withLog t.engine.log)).unchanged horder
    simp only [step, ho]
    refine ⟨hunchanged.of_withLog, ?_⟩
    rcases hlog with hlog | ⟨record, e, happend, hfailed⟩
    · exact Or.inl (hsettled.log.trans hlog)
    · exact Or.inr ⟨record, e, by rw [happend]; exact congrArg (·, _) hsettled.log.symm, hfailed⟩
  | pause j =>
    have halike := t.pause_alike j
    exact ⟨halike.unchanged horder, Or.inl halike.log⟩
  | abandon j error =>
    obtain rfl : j = i := hm
    have halike := Engine.Alike.abandon t.engine o error
    simp only [step, ho]
    split
    · exact ⟨.refl _, Or.inl rfl⟩
    · exact ⟨halike.unchanged horder, Or.inl halike.log⟩
  | _ => exact hm.elim

/-- An operation that changes the store never comes to look attributes up. -/
theorem writes_run (ho : t.operations[i]? = some o) (hw : o.Writes) (moves : List Move) :
    ∃ o', (t.run moves).operations[i]? = some o' ∧ o'.Writes := by
  induction moves generalizing t o with
  | nil => exact ⟨o, ho, hw⟩
  | cons m moves ih =>
    rcases operations_step t m ho with hsame | ⟨-, hadvanced⟩ | ⟨-, hpaused⟩ | ⟨-, e, hfailed⟩
    · exact ih hsame hw
    · exact ih hadvanced ((t.engine.advancePhase_goes o).writes hw)
    · exact ih hpaused (t.engine.writes_comeToTurn hw)
    · exact ih hfailed ⟨hw.1, trivial⟩

/-- An operation that changes the store and ends in an error changes nothing with any of its moves,
whatever else happens in between. The journal stays too, unless the error is that it has failed to
take the record. So it is with an attribute store whose reads may fail as well. -/
theorem unchanged_of_failed (config : Config) (logged : Bool) (clock : AttributeValue)
    (strides : List Stride) (moves : List Move) {i : Nat} {request : Request}
    {e : SegmentError}
    (hw : ((start config logged clock).along strides).waiting? i = some request)
    (hchanges : request.changes = true)
    (hfailed : (((start config logged clock).along strides).run moves).result? i =
      some (.error e)) :
    let t := (start config logged clock).along strides
    (∀ before m later, moves = before ++ m :: later → m.concerns i →
      (t.run before).engine.Unchanged ((t.run before).step m).engine ∧
        (t.run before).engine.Unlogged ((t.run before).step m).engine
          (((t.run before).step m).result? i)) ∧
    ((∀ m ∈ moves, m.concerns i) → t.engine.Unchanged (t.run moves).engine) ∧
    (Engine.evaluationBy fun id ids => .ok (t.engine.store.lookup id ids)) =
      t.engine.evaluation ∧
    ∀ read action e',
      (t.engine.executeBy (Engine.evaluationBy read) action).2.2 = .error e' →
      t.engine.Unchanged (t.engine.executeBy (Engine.evaluationBy read) action).1 ∧
        t.engine.Unlogged (t.engine.executeBy (Engine.evaluationBy read) action).1
          (some (.error e')) := by
  intro t
  have horder : ∀ before, (t.run before).engine.InOrder := by
    intro before
    obtain ⟨rs, rest, htraced⟩ := traced_along (traced_start config logged clock)
      (strides ++ before.map .moved)
    rw [along_append, along_moved] at htraced
    exact htraced.inOrder
  obtain ⟨o, ho, rfl, hphase⟩ := operation_of_waiting hw
  have hwrites : o.Writes := ⟨hchanges, by rw [hphase]; trivial⟩
  have hmove : ∀ before m later, moves = before ++ m :: later → m.concerns i →
      (t.run before).engine.Unchanged ((t.run before).step m).engine ∧
        (t.run before).engine.Unlogged ((t.run before).step m).engine
          (((t.run before).step m).result? i) := by
    rintro before m later rfl hm
    obtain ⟨o', ho', hwrites'⟩ := writes_run ho hwrites before
    refine step_failed ho' hwrites' (horder before) hm fun answer hok => ?_
    have hends := result?_run hok later
    rw [run_append] at hfailed
    cases (Option.some.inj (hfailed.symm.trans hends) : _)
  refine ⟨hmove, fun hall => ?_, Engine.evaluationBy_store t.engine,
    fun read action e' hfails => ?_⟩
  · -- the moves are added one after another, each of them a move of the whole run
    have hprefix : ∀ before later, moves = before ++ later →
        t.engine.Unchanged (t.run before).engine := by
      intro before
      induction before using List.reverseRecOn with
      | nil => exact fun later _ => .refl t.engine
      | append_singleton before m ih =>
        intro later hsplit
        rw [List.append_assoc, List.singleton_append] at hsplit
        have hm : m ∈ moves := by
          rw [hsplit]
          exact List.mem_append_right before List.mem_cons_self
        rw [run_snoc]
        exact (ih (m :: later) hsplit).trans (hmove before m later hsplit (hall m hm)).1
    exact hprefix moves [] (List.append_nil moves).symm
  · obtain ⟨hsame, hlog⟩ :=
      Engine.executeBy_failed t.engine (Engine.evaluationBy read) action hfails
    exact ⟨(hsame.unchanged (horder [])).of_withLog, hlog⟩

/-- An append at an offset that the segment does not have is about to begin. -/
def misplaced : List Stride := [.moved (.submit (.create "a" [.replace ⟨0, 7⟩ 5]) 1),
  .moved (.advance 0), .moved (.submit (.appendAt "a" 3 [1, 2] [.accumulate ⟨0, 7⟩ 1]) 1)]

/-- It fails and changes nothing. -/
theorem unchanged_of_failed_of_misplaced :
    let t := (start .standard false 0).along misplaced
    (t.run [.advance 1]).result? 1 = some (.error (.badOffset "a" 3 (.length 0))) ∧
      t.engine.Unchanged (t.run [.advance 1]).engine := by
  intro t
  have hw : t.waiting? 1 = some (.appendAt "a" 3 [1, 2] [.accumulate ⟨0, 7⟩ 1]) := by
    decide +kernel
  have hfailed : (t.run [.advance 1]).result? 1 =
      some (.error (.badOffset "a" 3 (.length 0))) := by decide +kernel
  have hunchanged := unchanged_of_failed .standard false 0 misplaced [.advance 1] hw rfl hfailed
  refine ⟨hfailed, hunchanged.2.1 fun m hm => ?_⟩
  rw [List.mem_singleton.mp hm]
  exact rfl

end Traffic

end Segments
