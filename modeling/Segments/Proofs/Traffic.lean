import Segments.Proofs.Overtaking

/-!
# All that can happen to an open store

`Traffic` is an open store with the operations that its clients have begun, and `Move` is one thing
that can happen to it: an operation goes on to its next point of waiting or is given up there, a
segment is evicted, the attribute store begins to refuse writes, the device crashes. An operation
may also come to a turn and go no further, so that others come between its look-up of the segment,
its turn and its change. Moves come in any order, so that a list of moves is one interleaving. What
a single move keeps, `Sound.step`, is kept by a whole run.
-/

namespace Segments

/-- An open store and the operations that were begun on it. -/
structure Traffic where
  /-- The store. -/
  engine : Engine
  /-- The accepted operations in their order, those that have ended included. -/
  operations : List Operation

/-- One thing that can happen. -/
inductive Move where
  /-- A client makes a request. -/
  | submit (request : Request) (timeout : Nat)
  /-- An operation goes on to the next point where it may have to wait. -/
  | advance (i : Nat)
  /-- An operation comes to the next turn that it has to take, and goes no further. -/
  | pause (i : Nat)
  /-- An operation is given up where it waits. -/
  | abandon (i : Nat) (error : SegmentError)
  /-- A segment is evicted. -/
  | evict (name : String)
  /-- Cached attributes of a segment are dropped beyond a bound. -/
  | trim (segment : SegmentId) (max : Nat)
  /-- The unstored attribute values of a segment are offered to the store. -/
  | writeThrough (segment : SegmentId)
  /-- The attribute store begins to refuse writes, or takes them again. -/
  | refuse (refusing : Bool)
  /-- Time passes. -/
  | tick (clock : AttributeValue)
  /-- The journal device is set to crash once so many bytes were offered to it. -/
  | crashAfter (threshold : Nat)
  /-- Flushes of the journal device begin to fail, or succeed again. -/
  | failFlush (fail : Bool)
  /-- A reader is closed. -/
  | close (reader : Reader)
  /-- The store is shut down. -/
  | shutdown

namespace Engine

/-- The engine with its journal device's crash switch changed. -/
def modifySwitch (s : Engine) (f : CrashSwitch → CrashSwitch) : Engine :=
  { s with log := { s.log with device := { s.log.device with switch := f s.log.device.switch } } }

end Engine

/-- How an operation has ended that has come so far. -/
def Phase.result? : Phase → Option (Except SegmentError Answer)
  | finished result => some result
  | _ => none

/-- Exactly a finished operation has a result. -/
theorem Phase.result?_eq_some {phase : Phase} {result : Except SegmentError Answer} :
    phase.result? = some result ↔ phase = .finished result := by
  cases phase <;> simp [Phase.result?]

namespace Traffic

/-- A new store, with an attribute store in memory or with a log. -/
def start (config : Config) (logged : Bool) (clock : AttributeValue) : Traffic :=
  ⟨.new config [] (if logged then .ofLog .empty else .empty) clock, []⟩

/-- The store with its operations after something that concerns only the store. -/
def withEngine (t : Traffic) (engine : Engine) : Traffic := { t with engine }

/-- The store after an operation came to the next turn that it has to take, and no further. -/
def pause (t : Traffic) (i : Nat) : Traffic :=
  match t.operations[i]? with
  | none => t
  | some o => ⟨(t.engine.comeToTurn o).1,
      t.operations.set i { o with phase := (t.engine.comeToTurn o).2 }⟩

/-- What a move does. -/
def step (t : Traffic) : Move → Traffic
  | .submit request timeout =>
    match t.engine.accept request timeout with
    | .error _ => t
    | .ok (engine, o) => ⟨engine, t.operations ++ [o]⟩
  | .advance i =>
    match t.operations[i]? with
    | none => t
    | some o => ⟨(t.engine.advance o).1, t.operations.set i (t.engine.advance o).2.1⟩
  | .pause i => t.pause i
  | .abandon i error =>
    match t.operations[i]? with
    | none => t
    | some o =>
      if o.phase.isFinished then t
      else ⟨(t.engine.abandon o error).1, t.operations.set i (t.engine.abandon o error).2⟩
  | .evict name => t.withEngine (t.engine.evict name).1
  | .trim segment max => t.withEngine (t.engine.trim segment max)
  | .writeThrough segment => t.withEngine (t.engine.writeThrough segment).1
  | .refuse refusing =>
    t.withEngine { t.engine with store := { t.engine.store with refusing } }
  | .tick clock => t.withEngine { t.engine with clock }
  | .crashAfter threshold =>
    t.withEngine (t.engine.modifySwitch fun w => { w with threshold := some threshold })
  | .failFlush fail => t.withEngine (t.engine.modifySwitch fun w => { w with failFlush := fail })
  | .close reader => t.withEngine (t.engine.closeReader reader)
  | .shutdown => t.withEngine t.engine.shutdown.1

/-- What a list of moves does. -/
def run (t : Traffic) (moves : List Move) : Traffic := moves.foldl step t

/-- Moves are made one after another. -/
theorem run_append (t : Traffic) (moves more : List Move) :
    t.run (moves ++ more) = (t.run moves).run more := List.foldl_append

/-- The last move is made last. -/
theorem run_snoc (t : Traffic) (moves : List Move) (m : Move) :
    t.run (moves ++ [m]) = (t.run moves).step m := run_append t moves [m]

/-- The request of an operation that has yet to begin. -/
def waiting? (t : Traffic) (i : Nat) : Option Request :=
  match t.operations[i]? with
  | some ⟨request, _, _, .accepted⟩ => some request
  | _ => none

/-- A request waits with an operation that was accepted and has done nothing yet. -/
theorem operation_of_waiting {t : Traffic} {i : Nat} {request : Request}
    (h : t.waiting? i = some request) :
    ∃ o, t.operations[i]? = some o ∧ o.request = request ∧ o.phase = .accepted := by
  unfold waiting? at h
  split at h
  · next ho => exact ⟨_, ho, Option.some.inj h, rfl⟩
  · cases h

/-- How an operation has ended. -/
def result? (t : Traffic) (i : Nat) : Option (Except SegmentError Answer) :=
  (t.operations[i]?).bind fun o => o.phase.result?

/-- What the store has is what its journal says, and what operations carry along holds. -/
structure Sound (t : Traffic) (rs : List Record) (rest : Bytes)
    (found : SegmentId → AttributeId → AttributeValue := fun _ => noValues) : Prop where
  /-- The store is sound. -/
  engine : t.engine.Sound rs rest found
  /-- Every operation is valid. -/
  valid : ∀ o ∈ t.operations, o.Valid t.engine (.after rs found)

/-- The records that a move commits; only operations commit any. -/
def Commits (t : Traffic) (m : Move) (new : List Record) : Prop :=
  match m with
  | .advance i =>
    match t.operations[i]? with
    | some o => t.engine.Commits o (t.engine.advance o).2.1.phase new
    | none => new = []
  | _ => new = []

/-- A move leads to a sound store again, with the records that it commits. -/
structure Follows (t : Traffic) (rs : List Record) (rest : Bytes) (m : Move) (new : List Record)
    (rest' : Bytes) (found : SegmentId → AttributeId → AttributeValue := fun _ => noValues) :
    Prop where
  /-- The store with its operations is sound again. -/
  sound : (t.step m).Sound (rs ++ new) rest' found
  /-- The entries go on. -/
  precedes : t.engine.Precedes (.after rs found) (t.step m).engine (.after (rs ++ new) found)
  /-- Unless the move makes flushes fail, none has failed. -/
  flushed : m ≠ .failFlush true → t.engine.log.Flushed rest →
    (t.step m).engine.log.Flushed rest'
  /-- What waits for the attribute store and what made it is still what records commit. -/
  tidy {earlier : AttributeStore} : t.engine.Tidy (Record.Storable rs) earlier →
    (t.step m).engine.Tidy (Record.Storable (rs ++ new)) earlier
  /-- The new records are committed by the move. -/
  commits : t.Commits m new

end Traffic

namespace Engine

variable {s s' : Engine} {rs : List Record} {rest rest' : Bytes}
  {found : SegmentId → AttributeId → AttributeValue}

/-- To close a reader leaves a store that is alike. -/
theorem Alike.closeReader (s : Engine) (reader : Reader) : s.Alike (s.closeReader reader) :=
  modifyEntry s _ fun _ _ => ⟨rfl, rfl, .refl _, fun _ h => ⟨h.published, h.cached⟩⟩

/-- To give an operation up leaves a store that is alike. -/
theorem Alike.abandon (s : Engine) (o : Operation) (error : SegmentError) :
    s.Alike (s.abandon o error).1 :=
  (leaveAll s o.phase.places).trans
    (settle (s.leaveAll o.phase.places) { o with phase := .finished (.error error) })

/-- An engine that is the same but for the clock, the switch and whether it is open. -/
theorem Sound.same (h : s.Sound rs rest found) (s' : Engine) (hentries : s'.entries = s.entries)
    (hnames : s'.names = s.names) (hnext : s'.nextId = s.nextId) (hstore : s'.store = s.store)
    (hlog : s'.log.Holds rs rest) :
    s'.Sound rs rest found ∧ s.Precedes (.after rs found) s' (.after rs found) ∧
      ∀ {earlier : AttributeStore} P, s.Tidy P earlier → s'.Tidy P earlier := by
  refine ⟨⟨h.admitted, ⟨fun id => ?_, fun n => ?_, ?_, fun id e he => ?_, fun id hid => ?_⟩,
    hlog⟩, fun id e he => ⟨e, by rw [hentries, he], .refl e _⟩,
    fun P ht => ⟨fun id e he => ht.waits id e (hentries ▸ he), hstore ▸ ht.made⟩⟩
  · rw [hentries, hstore]
    exact h.agrees.segment id
  · rw [hnames, h.agrees.names]
  · rw [hnext, h.agrees.nextId]
  · rw [hnext]
    exact h.agrees.numbered id e (hentries ▸ he)
  · rw [hstore]
    exact h.agrees.fresh id (hnext ▸ hid)

/-- The crash switch may be set without any harm. -/
theorem Sound.modifySwitch (h : s.Sound rs rest found) {f : CrashSwitch → CrashSwitch}
    (hf : ∀ w, (f w).crashed = w.crashed) :
    (s.modifySwitch f).Sound rs rest found ∧
      s.Precedes (.after rs found) (s.modifySwitch f) (.after rs found) ∧
      ∀ {earlier : AttributeStore} P, s.Tidy P earlier → (s.modifySwitch f).Tidy P earlier :=
  h.same _ rfl rfl rfl rfl ⟨h.holds.framable, h.holds.bytes, h.holds.cut,
    fun hr => (hf _).trans (h.holds.crashed hr)⟩

/-- Time passes. -/
theorem Sound.tick (h : s.Sound rs rest found) (clock : AttributeValue) :
    s.Continues rs rest { s with clock } rs rest found := by
  obtain ⟨hsound, hprecedes, htidy⟩ := h.same { s with clock } rfl rfl rfl rfl h.holds
  exact ⟨hsound, hprecedes, fun hf => hf, htidy _⟩

/-- Writing the values of a segment through commits nothing. -/
theorem Sound.writeThrough (h : s.Sound rs rest found) (id : SegmentId) :
    s.Continues rs rest (s.writeThrough id).1 rs rest found := by
  refine h.follows (h.agrees.writeThrough id) ?_ fun _ ht => ht.writeThrough id
  unfold Engine.writeThrough
  cases s.entries.get? id <;> rfl

/-- Nor does writing those of several segments through. -/
theorem Sound.writeAllThrough (h : s.Sound rs rest found) (ids : List SegmentId) :
    s.Continues rs rest (s.writeAllThrough ids).1 rs rest found := by
  induction ids generalizing s with
  | nil => exact h.refl
  | cons id ids ih =>
    have hone := h.writeThrough id
    exact hone.trans (ih hone.sound)

/-- An eviction commits nothing. -/
theorem Sound.evict (h : s.Sound rs rest found) (name : String) :
    s.Continues rs rest (s.evict name).1 rs rest found := by
  refine h.follows (h.agrees.evict name) ?_ fun _ ht => ht.evict h.agrees name
  unfold Engine.evict
  cases s.resolve name <;> rfl

/-- A flush leaves the bytes of the journal as they are. -/
theorem Sound.flush (h : s.Sound rs rest found) :
    s.Continues rs rest { s with log := s.log.flush.1 } rs rest found := by
  obtain ⟨hsound, hprecedes, htidy⟩ :=
    h.same { s with log := s.log.flush.1 } rfl rfl rfl rfl h.holds.flush
  refine ⟨hsound, hprecedes, fun hf => ?_, htidy _⟩
  rwa [hf.flush]

/-- A shutdown closes the store, writes all values through and flushes. -/
theorem shutdown_fst (s : Engine) (hc : s.closed = false) :
    s.shutdown.1 = { ({ s with closed := true }.writeAllThrough
      (s.liveEntries.map Entry.id)).1 with log := ({ s with closed := true }.writeAllThrough
      (s.liveEntries.map Entry.id)).1.log.flush.1 } := by
  unfold Engine.shutdown
  simp only [hc, Bool.false_eq_true, ↓reduceIte]
  generalize ({ s with closed := true }.writeAllThrough (s.liveEntries.map Entry.id)).1 = s₁
  cases s₁.log.flush with
  | mk log result =>
    cases result with
    | error e => rfl
    | ok u => cases s₁.store.flush <;> rfl

/-- A shutdown commits nothing. -/
theorem Sound.shutdown (h : s.Sound rs rest found) :
    s.Continues rs rest s.shutdown.1 rs rest found := by
  cases hc : s.closed with
  | true =>
    simp only [Engine.shutdown, hc, ↓reduceIte]
    exact h.refl
  | false =>
    rw [shutdown_fst s hc]
    obtain ⟨hsound, hprecedes, htidy⟩ := h.same { s with closed := true } rfl rfl rfl rfl h.holds
    have hclosed : s.Continues rs rest { s with closed := true } rs rest found :=
      ⟨hsound, hprecedes, fun hf => hf, htidy _⟩
    have hwritten := hsound.writeAllThrough (s.liveEntries.map Entry.id)
    exact (hclosed.trans hwritten).trans hwritten.sound.flush

end Engine

namespace Traffic

variable {t : Traffic} {rs : List Record} {rest : Bytes}
  {found : SegmentId → AttributeId → AttributeValue}

/-- What a move does to an operation that it does not give up. -/
theorem operations_step_of_ne (t : Traffic) (m : Move) {i : Nat} {o : Operation}
    (ho : t.operations[i]? = some o) (hm : ∀ e, m ≠ .abandon i e) :
    (t.step m).operations[i]? = some o ∨
      (m = .advance i ∧ (t.step m).operations[i]? = some (t.engine.advance o).2.1) ∨
      (m = .pause i ∧ (t.step m).operations[i]? =
        some { o with phase := (t.engine.comeToTurn o).2 }) := by
  obtain ⟨hi, -⟩ := List.getElem?_eq_some_iff.mp ho
  cases m with
  | submit request timeout =>
    left
    simp only [step]
    split
    · exact ho
    · exact (List.getElem?_append_left hi).trans ho
  | advance j =>
    by_cases hij : j = i
    · subst hij
      refine Or.inr (Or.inl ?_)
      simp only [step, ho]
      exact ⟨trivial, List.getElem?_set_self hi⟩
    · left
      simp only [step]
      split
      · exact ho
      · exact (List.getElem?_set_ne hij).trans ho
  | pause j =>
    by_cases hij : j = i
    · subst hij
      refine Or.inr (Or.inr ?_)
      simp only [step, pause, ho]
      exact ⟨trivial, List.getElem?_set_self hi⟩
    · left
      simp only [step, pause]
      split
      · exact ho
      · exact (List.getElem?_set_ne hij).trans ho
  | abandon j error =>
    have hij : j ≠ i := fun h => hm error (h ▸ rfl)
    left
    simp only [step]
    split
    · exact ho
    · split
      · exact ho
      · exact (List.getElem?_set_ne hij).trans ho
  | _ => exact Or.inl ho

/-- What a move does to an operation. -/
theorem operations_step (t : Traffic) (m : Move) {i : Nat} {o : Operation}
    (ho : t.operations[i]? = some o) :
    (t.step m).operations[i]? = some o ∨
      (m = .advance i ∧ (t.step m).operations[i]? = some (t.engine.advance o).2.1) ∨
      (m = .pause i ∧ (t.step m).operations[i]? =
        some { o with phase := (t.engine.comeToTurn o).2 }) ∨
      (o.phase.isFinished = false ∧
        ∃ e, (t.step m).operations[i]? = some { o with phase := .finished (.error e) }) := by
  by_cases hm : ∃ e, m = .abandon i e
  · obtain ⟨error, rfl⟩ := hm
    obtain ⟨hi, -⟩ := List.getElem?_eq_some_iff.mp ho
    simp only [step, ho]
    split
    · exact Or.inl ho
    · next hf =>
      exact Or.inr (Or.inr (Or.inr ⟨by simpa using hf, error, List.getElem?_set_self hi⟩))
  · rcases t.operations_step_of_ne m ho (fun e he => hm ⟨e, he⟩) with hsame | hadvanced | hpaused
    · exact Or.inl hsame
    · exact Or.inr (Or.inl hadvanced)
    · exact Or.inr (Or.inr (Or.inl hpaused))

/-- A new store is sound, without records. -/
theorem sound_start (config : Config) (logged : Bool) (clock : AttributeValue) :
    (start config logged clock).Sound [] [] := by
  refine ⟨⟨trivial, ⟨fun id => .absent, fun n => rfl, rfl, fun id e he => ?_, fun id _ => ?_⟩,
    OperationLog.holds_ofBytes_nil _⟩, fun o ho => ?_⟩
  · cases he
  · refine AttributeStore.valuesOf_eq_noValues fun x => ?_
    cases logged <;> rfl
  · exact absurd ho List.not_mem_nil

/-- The journal of a new store is flushed. -/
theorem flushed_start (config : Config) (logged : Bool) (clock : AttributeValue) :
    (start config logged clock).engine.log.Flushed [] :=
  OperationLog.flushed_ofBytes_nil _

/-- The attribute store of a new store was made from nothing. -/
theorem tidy_start (config : Config) (logged : Bool) (clock : AttributeValue)
    (P : SegmentId → AttributeId → Prop) : (start config logged clock).engine.Tidy P := by
  refine ⟨fun id e he => ?_, ?_⟩
  · cases he
  · cases logged with
    | true => exact AttributeStore.made_self _
    | false => exact AttributeStore.made_ofIndex_empty

/-- A move leads on when the store goes on and the operations that the move touched are valid. -/
theorem Sound.continues (h : t.Sound rs rest found) {m : Move} {engine : Engine}
    {operations : List Operation} {new : List Record} {rest' : Bytes}
    (hstep : t.step m = ⟨engine, operations⟩)
    (hc : t.engine.Continues rs rest engine (rs ++ new) rest' found)
    (hops : ∀ o ∈ operations, o ∈ t.operations ∨ o.Valid engine (.after (rs ++ new) found))
    (hm : t.Commits m new) : t.Follows rs rest m new rest' found := by
  refine ⟨?_, ?_, fun _ => ?_, ?_, hm⟩ <;> rw [hstep]
  · exact ⟨hc.sound, fun o ho => (hops o ho).elim (fun ho' => (h.valid o ho').precedes hc.precedes)
      fun hv => hv⟩
  · exact hc.precedes
  · exact hc.flushed
  · exact hc.tidy

/-- A move of the store alone, which commits nothing. -/
theorem Sound.quiet (h : t.Sound rs rest found) {m : Move} {engine : Engine}
    (hstep : t.step m = t.withEngine engine) (hc : t.engine.Continues rs rest engine rs rest found)
    (hm : t.Commits m []) : t.Follows rs rest m [] rest found :=
  h.continues hstep (by rwa [List.append_nil]) (fun _ ho => Or.inl ho) hm

/-- A request that comes in commits nothing. -/
theorem Sound.submit (h : t.Sound rs rest found) (request : Request) (timeout : Nat) :
    t.Follows rs rest (.submit request timeout) [] rest found := by
  cases ha : t.engine.accept request timeout with
  | error e => exact h.quiet (by simp only [step, ha]; rfl) h.engine.refl rfl
  | ok accepted =>
    obtain ⟨engine, o⟩ := accepted
    obtain ⟨-, -, hphase, pending, hpending⟩ := Engine.accept_eq_ok ha
    refine h.continues (by simp only [step, ha]; rfl) (by
      rw [List.append_nil, hpending]
      exact h.engine.alike (.withPending t.engine pending)) (fun o' ho' => ?_) rfl
    rcases List.mem_append.mp ho' with hold | hnew
    · exact Or.inl hold
    · refine Or.inr ?_
      rw [List.mem_singleton.mp hnew, Operation.Valid, hphase]
      exact trivial

/-- A step of an operation commits at most what the operation asks for. -/
theorem Sound.advance (h : t.Sound rs rest found) (i : Nat) :
    ∃ new rest', t.Follows rs rest (.advance i) new rest' found := by
  cases ho : t.operations[i]? with
  | none =>
    refine ⟨[], rest, h.quiet (by simp only [step, ho]; rfl) h.engine.refl ?_⟩
    simp only [Commits, ho]
  | some o =>
    have hmem := List.mem_of_getElem? ho
    obtain ⟨new, rest', hcont, hvalid, hcommits⟩ :=
      h.engine.goes (h.valid o hmem) (t.engine.advancePhase_goes o)
    have hsettled := hcont.sound.alike (.settle _ { o with phase := (t.engine.advancePhase o).2.1 })
    have hstep : t.step (.advance i) =
        ⟨(t.engine.advance o).1, t.operations.set i (t.engine.advance o).2.1⟩ := by
      simp only [step, ho]
    refine ⟨new, rest', h.continues hstep (hcont.trans hsettled) (fun o' ho' => ?_) ?_⟩
    · rcases List.mem_or_eq_of_mem_set ho' with hold | rfl
      · exact Or.inl hold
      · exact Or.inr (hvalid.precedes hsettled.precedes)
    · simp only [Commits, ho]
      exact hcommits

/-- Coming to a turn concerns nothing but lines. -/
theorem pause_alike (t : Traffic) (i : Nat) : t.engine.Alike (t.pause i).engine := by
  unfold pause
  split
  · exact .refl _
  · exact .comeToTurn t.engine _

/-- Coming to a turn commits nothing. -/
theorem Sound.pause (h : t.Sound rs rest found) (i : Nat) :
    t.Follows rs rest (.pause i) [] rest found := by
  cases ho : t.operations[i]? with
  | none => exact h.quiet (by simp only [step, Traffic.pause, ho]; rfl) h.engine.refl rfl
  | some o =>
    have hpaused : t.step (.pause i) = ⟨(t.engine.comeToTurn o).1,
        t.operations.set i { o with phase := (t.engine.comeToTurn o).2 }⟩ := by
      simp only [step, Traffic.pause, ho]
    refine h.continues hpaused (by
      rw [List.append_nil]
      exact h.engine.alike (.comeToTurn t.engine o)) (fun o' ho' => ?_) rfl
    rcases List.mem_or_eq_of_mem_set ho' with hold | rfl
    · exact Or.inl hold
    · refine Or.inr (Engine.valid_comeToTurn ?_)
      rw [List.append_nil]
      exact h.valid o (List.mem_of_getElem? ho)

/-- To give an operation up commits nothing. -/
theorem Sound.abandon (h : t.Sound rs rest found) (i : Nat) (error : SegmentError) :
    t.Follows rs rest (.abandon i error) [] rest found := by
  cases ho : t.operations[i]? with
  | none => exact h.quiet (by simp only [step, ho]; rfl) h.engine.refl rfl
  | some o =>
    by_cases hf : o.phase.isFinished = true
    · exact h.quiet (by simp only [step, ho, hf, ↓reduceIte]; rfl) h.engine.refl rfl
    · have halike := Engine.Alike.abandon t.engine o error
      refine h.continues (by simp only [step, ho, hf]; rfl) (by
        rw [List.append_nil]
        exact h.engine.alike halike) (fun o' ho' => ?_) rfl
      rcases List.mem_or_eq_of_mem_set ho' with hold | rfl
      · exact Or.inl hold
      · exact Or.inr trivial

/-- Whatever happens, the store stays sound, and its journal only grows by what operations
commit. -/
theorem Sound.step (h : t.Sound rs rest found) (m : Move) :
    ∃ new rest', t.Follows rs rest m new rest' found := by
  cases m with
  | submit request timeout => exact ⟨[], rest, h.submit request timeout⟩
  | advance i => exact h.advance i
  | pause i => exact ⟨[], rest, h.pause i⟩
  | abandon i error => exact ⟨[], rest, h.abandon i error⟩
  | evict name => exact ⟨[], rest, h.quiet rfl (h.engine.evict name) rfl⟩
  | trim segment max =>
    exact ⟨[], rest, h.quiet rfl (h.engine.follows (h.engine.agrees.trim segment max) rfl
      fun _ ht => ht.trim segment max) rfl⟩
  | writeThrough segment => exact ⟨[], rest, h.quiet rfl (h.engine.writeThrough segment) rfl⟩
  | refuse refusing =>
    exact ⟨[], rest, h.quiet rfl (h.engine.follows (h.engine.agrees.withRefusing refusing) rfl
      fun _ ht => ⟨ht.waits, ht.made⟩) rfl⟩
  | tick clock => exact ⟨[], rest, h.quiet rfl (h.engine.tick clock) rfl⟩
  | crashAfter threshold =>
    obtain ⟨hsound, hprecedes, htidy⟩ := h.engine.modifySwitch
      (f := fun w => { w with threshold := some threshold }) fun _ => rfl
    exact ⟨[], rest, h.quiet rfl ⟨hsound, hprecedes, fun hf => ⟨hf.flushes, hf.torn⟩, htidy _⟩ rfl⟩
  | failFlush fail =>
    obtain ⟨hsound, hprecedes, htidy⟩ := h.engine.modifySwitch
      (f := fun w => { w with failFlush := fail }) fun _ => rfl
    refine ⟨[], rest, ?_, ?_, fun hm hf => ⟨?_, hf.torn⟩, ?_, rfl⟩
    · rw [List.append_nil]
      exact ⟨hsound, fun o ho => (h.valid o ho).precedes hprecedes⟩
    · rw [List.append_nil]
      exact hprecedes
    · cases fail with
      | true => exact absurd rfl hm
      | false => rfl
    · rw [List.append_nil]
      exact htidy _
  | close reader =>
    exact ⟨[], rest, h.quiet rfl (h.engine.alike (.closeReader t.engine reader)) rfl⟩
  | shutdown => exact ⟨[], rest, h.quiet rfl h.engine.shutdown rfl⟩

/-- A whole run keeps the store sound, and adds records to those of the journal. -/
theorem Sound.run (h : t.Sound rs rest found) (moves : List Move) :
    ∃ new rest', (t.run moves).Sound (rs ++ new) rest' found ∧
      (.failFlush true ∉ moves → t.engine.log.Flushed rest →
        (t.run moves).engine.log.Flushed rest') ∧
      ∀ {earlier : AttributeStore}, t.engine.Tidy (Record.Storable rs) earlier →
        (t.run moves).engine.Tidy (Record.Storable (rs ++ new)) earlier := by
  induction moves generalizing t rs rest with
  | nil => exact ⟨[], rest, by rwa [List.append_nil], fun _ hf => hf, by
      intro earlier ht
      rwa [List.append_nil]⟩
  | cons m moves ih =>
    obtain ⟨new, rest₁, hstep⟩ := h.step m
    obtain ⟨more, rest₂, hsound, hflushed, htidy⟩ := ih hstep.sound
    rw [List.append_assoc] at hsound
    refine ⟨new ++ more, rest₂, hsound, fun hm hf => ?_,
      fun ht => List.append_assoc rs new more ▸ htidy (hstep.tidy ht)⟩
    obtain ⟨hhead, htail⟩ := not_or.mp (List.mem_cons.not.mp hm)
    exact hflushed htail (hstep.flushed (Ne.symm hhead) hf)

/-- An operation that has ended stays as it ended. -/
theorem result?_step {i : Nat} {result : Except SegmentError Answer}
    (h : t.result? i = some result) (m : Move) :
    (t.step m).result? i = some result := by
  obtain ⟨o, ho, hresult⟩ := Option.bind_eq_some_iff.mp h
  have hphase := Phase.result?_eq_some.mp hresult
  rcases operations_step t m ho with hsame | ⟨-, hadvanced⟩ | ⟨-, hpaused⟩ | ⟨hunfinished, -⟩
  · rw [result?, hsame]
    exact hresult
  · have hstays : (t.engine.advance o).2.1.phase = .finished result := by
      simp only [Engine.advance, Engine.advancePhase, hphase]
    rw [result?, hadvanced]
    exact Phase.result?_eq_some.mpr hstays
  · have hstays : (t.engine.comeToTurn o).2 = .finished result := by
      simp only [Engine.comeToTurn, hphase]
    rw [result?, hpaused]
    exact Phase.result?_eq_some.mpr hstays
  · rw [hphase] at hunfinished
    cases hunfinished

/-- A result stays when more moves are made. -/
theorem result?_run {i : Nat} {result : Except SegmentError Answer}
    (h : t.result? i = some result) (moves : List Move) :
    (t.run moves).result? i = some result := by
  induction moves generalizing t with
  | nil => exact h
  | cons m moves ih => exact ih (result?_step h m)

end Traffic

end Segments
