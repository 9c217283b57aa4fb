import Segments.Engine.Calls
import Segments.Proofs.Turns

/-!
# Calls of a caller who is alone

A caller who waits for every answer before the next request has the store to itself. Its operation
is looked at until it ends, at most three times, and leaves nothing under way.
-/

namespace Segments

/-- Whether an operation waits for the attribute store. -/
def Phase.looksUp : Phase → Bool
  | fetching .. | fetched .. => true
  | _ => false

/-- Who looks values up has not finished. -/
theorem Phase.isFinished_of_looksUp {phase : Phase} (h : phase.looksUp = true) :
    phase.isFinished = false := by
  cases phase <;> first | rfl | cases h

/-- Who looks values up has no place in a line. -/
theorem Phase.places_of_looksUp {phase : Phase} (h : phase.looksUp = true) :
    phase.places = [] := by
  cases phase <;> first | rfl | cases h

/-- How an operation ends when nothing comes between its steps: at once, or after some steps in
which it looks attributes up. -/
inductive Engine.Ends : Nat → Engine → Operation → Engine → Except SegmentError Answer → Prop where
  /-- It ends with the next step. -/
  | last {s : Engine} {o : Operation} {result : Except SegmentError Answer}
      (finished : (s.advance o).2.1.phase = .finished result) : Ends 0 s o (s.advance o).1 result
  /-- It waits for the attribute store first. -/
  | more {n : Nat} {s s' : Engine} {o : Operation} {result : Except SegmentError Answer}
      (looks : (s.advance o).2.1.phase.looksUp = true)
      (rest : Ends n (s.advance o).1 (s.advance o).2.1 s' result) : Ends (n + 1) s o s' result

namespace Scheduler

/-- Nothing is under way. -/
structure Idle (s : Scheduler) : Prop where
  /-- Nothing was submitted or woken. -/
  ready : s.ready = []
  /-- No look-up came back. -/
  returned : s.returned = []
  /-- Nobody waits for earlier operations. -/
  watching : s.watching = []
  /-- The gate is open. -/
  gate : s.gate = .opened

/-- A scheduler without tasks is idle. -/
theorem idle_ofEngine (engine : Engine) : (ofEngine engine).Idle := ⟨rfl, rfl, rfl, rfl⟩

variable {s : Scheduler} {id : Nat} {t : Task} {result : Except SegmentError Answer}

theorem Idle.withEngine (h : s.Idle) (engine : Engine) : ({ s with engine } : Scheduler).Idle :=
  ⟨h.ready, h.returned, h.watching, h.gate⟩

/-- An idle scheduler has nothing to do. -/
theorem Idle.isQuiet (h : s.Idle) : s.isQuiet = true := by
  rw [Scheduler.isQuiet, h.ready, h.returned]
  rfl

/-- A scheduler with nothing to do stays as it is. -/
theorem run_of_isQuiet (h : s.isQuiet = true) (fuel : Nat) : run fuel s = s := by
  cases fuel with
  | zero => rfl
  | succ fuel => rw [run, if_pos h]

/-- Where nobody watches nobody is woken. -/
theorem wakeWatching_of_nil (h : s.watching = []) : s.wakeWatching = s := by
  rw [wakeWatching, h]
  cases s
  cases h
  rfl

/-- An operation without places in line is to be looked at next, and no other. -/
structure Next (s : Scheduler) (id : Nat) (t : Task) : Prop where
  /-- It was submitted, or its look-up came back. -/
  queued : s.ready = [id] ∧ s.returned = [] ∨ s.ready = [] ∧ s.returned = [id]
  /-- Nobody waits for earlier operations. -/
  watching : s.watching = []
  /-- The gate is open. -/
  gate : s.gate = .opened
  /-- The operation is there. -/
  task : s.tasks.get? id = some t
  /-- It has begun no change. -/
  phase : t.operation.phase = .accepted ∨ t.operation.phase.looksUp = true
  /-- Its cancellation was not asked for. -/
  wanted : t.cancelled = false
  /-- Somebody is there to collect its answer. -/
  attended : t.unattended = false
  /-- Its time is not up. -/
  early : s.now < t.deadline.getD (s.now + t.timeout)

/-- An operation after one more look at it. -/
def lookedAt (s : Scheduler) (t : Task) : Task :=
  { t with
    deadline := some (t.deadline.getD (s.now + t.timeout))
    operation := (s.engine.advance t.operation).2.1 }

/-- The scheduler with nothing to look at, after a look at an operation. -/
def afterLook (s : Scheduler) (id : Nat) (t : Task) : Scheduler :=
  ({ s with ready := [], returned := [] } : Scheduler).store id (s.lookedAt t)
    (s.engine.advance t.operation).1 (s.engine.advance t.operation).2.2

/-- What goes next has no place in a line. -/
theorem Next.places (h : s.Next id t) : t.operation.phase.places = [] := by
  rcases h.phase with hphase | hphase
  · rw [hphase]
    rfl
  · exact Phase.places_of_looksUp hphase

/-- What goes next has not finished. -/
theorem Next.isFinished_eq (h : s.Next id t) : t.isFinished = false := by
  unfold Task.isFinished
  rcases h.phase with hphase | hphase
  · rw [hphase]
    rfl
  · exact Phase.isFinished_of_looksUp hphase

/-- There is something to do as long as something goes next. -/
theorem Next.isQuiet_eq (h : s.Next id t) : s.isQuiet = false := by
  rw [isQuiet]
  rcases h.queued with ⟨hready, -⟩ | ⟨-, hreturned⟩
  · rw [hready]
    rfl
  · rw [hreturned, Bool.and_comm]
    rfl

/-- A step looks at the operation: it ends, or is left where it waits. -/
theorem Next.step_eq (h : s.Next id t) : s.step =
    if (s.lookedAt t).isFinished then (s.afterLook id t).conclude id (s.lookedAt t) []
    else (s.afterLook id t).leaveWaiting id (s.lookedAt t) := by
  have hstep : s.step = ({ s with ready := [], returned := [] } : Scheduler).poll id := by
    unfold Scheduler.step
    rcases h.queued with ⟨hready, hreturned⟩ | ⟨hready, hreturned⟩ <;> rw [hready, hreturned]
  have hopen : s.gate.holds id = false := by
    rw [h.gate]
    rfl
  have hdue : (s.lookedAt t).isDue s.now = false := by
    have hearly := h.early
    simp only [Task.isDue, lookedAt, Option.any_some]
    simp [hearly]
  have hpoll : ({ s with ready := [], returned := [] } : Scheduler).poll id =
      ({ s with ready := [], returned := [] } : Scheduler).proceed id t := by
    simp only [poll, h.task, h.isFinished_eq, h.wanted, Bool.false_eq_true, ↓reduceIte]
  rw [hstep, hpoll, proceed]
  simp only [hopen, h.places, Bool.false_eq_true, ↓reduceIte]
  change (if (s.lookedAt t).isFinished then (s.afterLook id t).conclude id (s.lookedAt t) []
    else if (s.lookedAt t).isDue s.now then _ else _) = _
  rw [hdue]
  rfl

/-- After a look the task is the one that looked. -/
theorem Next.get?_afterLook (h : s.Next id t) :
    (s.afterLook id t).tasks.get? id = some (s.lookedAt t) := by
  have hmodify : (s.afterLook id t).tasks = s.tasks.modify id fun _ => s.lookedAt t := rfl
  rw [hmodify, Table.get?_modify, if_pos rfl, h.task, Option.map_some]

/-- An operation that ends wakes nobody, and its answer is there. -/
theorem Next.step_of_finished (h : s.Next id t)
    (hf : (s.engine.advance t.operation).2.1.phase = .finished result) :
    s.step = s.afterLook id t ∧
      ((s.afterLook id t).tasks.get? id).bind Task.result? = some result := by
  have hfinished : (s.lookedAt t).isFinished = true := by
    rw [Task.isFinished, lookedAt, hf]
    rfl
  refine ⟨?_, ?_⟩
  · rw [h.step_eq, if_pos hfinished, conclude]
    have hattended : (s.lookedAt t).unattended = false := h.attended
    simp only [List.foldl_nil, wakeWatching_of_nil (s := s.afterLook id t) h.watching, hattended,
      Bool.false_eq_true, ↓reduceIte]
  · rw [h.get?_afterLook, Option.bind_some, Task.result?, lookedAt, hf]

/-- The look-up of an operation comes back when nothing else is to be looked at. -/
theorem Next.step_of_looksUp (h : s.Next id t)
    (hl : (s.engine.advance t.operation).2.1.phase.looksUp = true) :
    s.step.Next id (s.lookedAt t) ∧ s.step.engine = (s.engine.advance t.operation).1 := by
  have hphase : (s.lookedAt t).operation.phase.looksUp = true := hl
  have hgate : (s.afterLook id t).gate = .opened := h.gate
  have hback : (s.afterLook id t).leaveWaiting id (s.lookedAt t) =
      { s.afterLook id t with returned := [id] } := by
    have hcome : (s.afterLook id t).comeBack id = { s.afterLook id t with returned := [id] } := by
      have hqueued : (s.afterLook id t).isQueued id = false := rfl
      rw [comeBack, hqueued]
      rfl
    have hmet : (s.afterLook id t).meetGate id = (s.afterLook id t).comeBack id := by
      unfold meetGate
      rw [hgate]
      generalize s.afterLook id t = after at hgate
      cases after
      cases hgate
      rfl
    unfold leaveWaiting
    split
    · next hp =>
      rw [hp] at hphase
      cases hphase
    · exact hcome
    · exact hmet.trans hcome
    · next hfetching hfetched =>
      cases hp : (s.lookedAt t).operation.phase with
      | fetching segment lookup cache => exact absurd hp (hfetching segment lookup cache)
      | fetched segment lookup cache values =>
        exact absurd hp (hfetched segment lookup cache values)
      | _ =>
        rw [hp] at hphase
        cases hphase
  have hunfinished : (s.lookedAt t).isFinished = false := Phase.isFinished_of_looksUp hphase
  rw [h.step_eq, hunfinished, if_neg Bool.false_ne_true, hback]
  exact ⟨⟨Or.inr ⟨rfl, rfl⟩, h.watching, h.gate, h.get?_afterLook, Or.inr hphase, h.wanted,
    h.attended, h.early⟩, rfl⟩

/-- An operation is looked at until it has ended; then nothing is under way. -/
theorem Next.run {n : Nat} {s' : Engine} (h : s.Next id t)
    (he : s.engine.Ends n t.operation s' result) {fuel : Nat} (hfuel : n < fuel) :
    (run fuel s).engine = s' ∧ (run fuel s).Idle ∧
      ((run fuel s).tasks.get? id).bind Task.result? = some result := by
  generalize hengine : s.engine = engine, hoperation : t.operation = o at he
  induction he generalizing s t fuel with
  | last finished =>
    subst hengine hoperation
    obtain ⟨hstep, hresult⟩ := h.step_of_finished finished
    have hidle : (s.afterLook id t).Idle := ⟨rfl, rfl, h.watching, h.gate⟩
    obtain ⟨fuel, rfl⟩ := Nat.exists_eq_succ_of_ne_zero (Nat.ne_of_gt hfuel)
    rw [Scheduler.run, h.isQuiet_eq, if_neg Bool.false_ne_true, hstep, run_of_isQuiet hidle.isQuiet]
    exact ⟨rfl, hidle, hresult⟩
  | more looks rest ih =>
    subst hengine hoperation
    obtain ⟨hnext, hstep⟩ := h.step_of_looksUp looks
    obtain ⟨fuel, rfl⟩ := Nat.exists_eq_succ_of_ne_zero (Nat.ne_of_gt (Nat.zero_lt_of_lt hfuel))
    rw [Scheduler.run, h.isQuiet_eq, if_neg Bool.false_ne_true]
    exact ih hnext (Nat.lt_of_succ_lt_succ hfuel) hstep rfl

/-- A request that is rejected changes nothing. -/
theorem ask_of_rejected {request : Request} {e : ArgumentError}
    (h : s.engine.accept request patience = .error e) :
    s.ask request = (s, .error (.internal e.message)) := by
  simp only [ask, call, submit, h]

/-- A call whose operation ends without waiting for others is answered, and nothing is under way
again. -/
theorem Idle.call (h : s.Idle) {request : Request} {engine s' : Engine} {o : Operation} {n : Nat}
    (haccept : s.engine.accept request patience = .ok (engine, o)) (hphase : o.phase = .accepted)
    (he : engine.Ends n o s' result) (hn : n < 8) :
    ∃ s₁, s.call request patience = (s₁, .ok (some result)) ∧ s₁.engine = s' ∧ s₁.Idle := by
  let t : Task := ⟨o, patience, none, false, false⟩
  let submitted : Scheduler := { s with
    engine
    tasks := s.tasks.insert s.nextTask t
    ready := s.ready ++ [s.nextTask]
    nextTask := s.nextTask + 1 }
  have hsubmit : s.submit request patience = .ok (submitted, s.nextTask) := by
    simp only [submit, haccept, submitted, t]
  have hnext : submitted.Next s.nextTask t := by
    refine ⟨Or.inl ⟨?_, h.returned⟩, h.watching, h.gate, ?_, Or.inl hphase, rfl, rfl, ?_⟩
    · simp only [submitted, h.ready, List.nil_append]
    · simp only [submitted, Table.get?_insert, ↓reduceIte]
    · exact Nat.lt_add_of_pos_right (show 0 < patience by decide)
  have hbound : n < submitted.stepBound := by
    have hone : 1 ≤ (submitted.tasks.size + 1) * (submitted.tasks.size + 1) :=
      Nat.one_le_iff_ne_zero.mpr (by simp)
    rw [stepBound, Nat.mul_assoc]
    omega
  obtain ⟨hengine, hidle, hresult⟩ := hnext.run he hbound
  have hbefore : submitted.isFinished s.nextTask = false := by
    rw [isFinished, hnext.task, Option.any_some, hnext.isFinished_eq]
  have hafter : submitted.settle.isFinished s.nextTask = true := by
    obtain ⟨t', ht', hended⟩ := Option.bind_eq_some_iff.mp hresult
    rw [isFinished, Scheduler.settle, ht', Option.any_some, Task.isFinished]
    unfold Task.result? at hended
    split at hended
    · next hp => rw [hp]; rfl
    · cases hended
  have hcollect : submitted.collect s.nextTask =
      (submitted.settle.forget s.nextTask, some result) := by
    have hresult' : (submitted.settle.tasks.get? s.nextTask).bind Task.result? = some result :=
      hresult
    unfold Scheduler.collect
    simp only [hbefore, Bool.false_eq_true, ↓reduceIte, waitFor, hafter, hresult']
  refine ⟨submitted.settle.forget s.nextTask, ?_, hengine, hidle.ready, hidle.returned,
    hidle.watching, hidle.gate⟩
  simp only [Scheduler.call, hsubmit, hcollect]

/-- A request whose operation ends without waiting for others is answered, and nothing is under way
again. -/
theorem Idle.ask (h : s.Idle) {request : Request} {engine s' : Engine} {o : Operation} {n : Nat}
    (haccept : s.engine.accept request patience = .ok (engine, o)) (hphase : o.phase = .accepted)
    (he : engine.Ends n o s' result) (hn : n < 8) :
    (s.ask request).2 = result ∧ (s.ask request).1.engine = s' ∧ (s.ask request).1.Idle := by
  obtain ⟨s₁, hcall, hengine, hidle⟩ := h.call haccept hphase he hn
  have hask : s.ask request = (s₁, result) := by simp only [Scheduler.ask, hcall]
  rw [hask]
  exact ⟨rfl, hengine, hidle⟩

end Scheduler

/-- A request is valid if its names are, if there is time for it and if its details are in order. -/
theorem Request.validate_eq_ok_iff {config : Config} {request : Request} {timeout : Nat} :
    request.validate config timeout = .ok () ↔
      checkNames config request.names = .ok () ∧ timeout ≠ 0 ∧
        request.checkDetails config = .ok () := by
  cases hnames : checkNames config request.names <;> by_cases htimeout : timeout = 0 <;>
    simp [validate, hnames, htimeout, bind, Except.bind]

/-- One name is checked by itself. -/
theorem Request.checkNames_singleton {config : Config} {name : String} :
    checkNames config [name] = .ok () ↔
      SegmentName.validate name config.maxNameLength = .ok () := by
  rw [checkNames]
  cases SegmentName.validate name config.maxNameLength <;> simp [checkNames]

/-- A request about one segment is valid if its name and its details are. -/
theorem Request.validate_of_name {config : Config} {request : Request} {name : String}
    (hnames : request.names = [name])
    (hname : SegmentName.validate name config.maxNameLength = .ok ())
    (hdetails : request.checkDetails config = .ok ()) :
    request.validate config Scheduler.patience = .ok () :=
  validate_eq_ok_iff.mpr ⟨hnames ▸ checkNames_singleton.mpr hname, by decide, hdetails⟩

/-- A valid merge is between two names. -/
theorem Request.ne_of_validate {config : Config} {timeout : Nat} {target source : String}
    (h : (Request.merge target source).validate config timeout = .ok ()) : target ≠ source := by
  rintro rfl
  simpa [checkDetails] using (validate_eq_ok_iff.mp h).2.2

namespace Engine

/-- What a call for a change does: it fails for its form or for its names, or makes the change. -/
inductive Called (s : Engine) (request : Request) : Engine → Except SegmentError Answer → Prop where
  /-- It fails. -/
  | fails {s' : Engine} (e : SegmentError) (alike : s.Alike s')
      (why : request.validate s.config Scheduler.patience ≠ .ok () ∨ request.action? s = none) :
      Called s request s' (.error e)
  /-- It makes its change. -/
  | executes {s₁ s' : Engine} {action : Action}
      (valid : request.validate s.config Scheduler.patience = .ok ())
      (asked : request.action? s = some action) (alike : s.Alike s₁)
      (after : (s₁.execute action).1.Alike s') :
      Called s request s' (s₁.execute action).2.2

end Engine

namespace Scheduler

/-- Nothing is under way, and nobody has a turn. -/
structure Alone (s : Scheduler) : Prop where
  /-- Nothing is under way. -/
  idle : s.Idle
  /-- Nobody has a turn. -/
  turns : s.engine.Turns []

variable {s : Scheduler} {a : Account} {request : Request}

/-- What a request asks for does not depend on registrations. -/
theorem action?_withPending (s : Engine) (pending : Pending) (request : Request) :
    request.action? { s with pending } = request.action? s := by
  cases request <;> rfl

/-- A call for a change is answered at once, and the caller is alone again. -/
theorem Alone.ask (h : s.Alone) (ha : s.engine.Agrees a) (hw : a.WellFormed)
    (hopen : s.engine.closed = false) (hq : request.changes = true) :
    (s.ask request).1.Alone ∧
      s.engine.Called request (s.ask request).1.engine (s.ask request).2 := by
  cases haccept : s.engine.accept request patience with
  | error e =>
    rw [ask_of_rejected haccept]
    refine ⟨h, .fails _ (.refl _) (Or.inl fun hvalid => ?_)⟩
    rw [Engine.accept, hvalid] at haccept
    cases haccept
  | ok accepted =>
    obtain ⟨engine, o⟩ := accepted
    obtain ⟨hvalid, hrequest, hphase, pending, rfl⟩ := Engine.accept_eq_ok haccept
    have halike := Engine.Alike.withPending s.engine pending
    generalize hs₁ : ({ s.engine with pending } : Engine) = s₁ at haccept halike
    have hasked : o.action? s₁ = request.action? s.engine := by
      rw [Operation.action?, hphase, hrequest, ← hs₁, action?_withPending]
    have hturns : s₁.Turns [] := by
      rw [← hs₁]
      exact h.turns
    have hstep : s₁.advancePhase o = s₁.begin o.barrier request := by
      rw [Engine.advancePhase, hphase, hrequest]
    obtain ⟨⟨result, hresult⟩, hleft⟩ := hturns.begin (halike.agrees ha) hw o.barrier hq
      fun target source hmerge => Request.ne_of_validate (hmerge ▸ hvalid)
    rw [← hstep] at hresult hleft
    have hended : (s₁.advance o).2.1.phase = .finished result := hresult
    obtain ⟨hanswer, hengine, hidle⟩ := h.idle.ask haccept hphase (.last hended) (by decide)
    have hsettled : (s₁.advancePhase o).1.Alike (s₁.advance o).1 :=
      .settle _ { o with phase := (s₁.advancePhase o).2.1 }
    have hfree : (s₁.advance o).1.Turns [] :=
      hleft.settle { o with phase := (s₁.advancePhase o).2.1 }
    rw [hanswer, hengine]
    refine ⟨⟨hidle, hengine ▸ hfree⟩, ?_⟩
    have hgoes := s₁.advancePhase_goes o
    cases hasks : request.action? s.engine with
    | none =>
      obtain ⟨hsame, e, rfl⟩ := hgoes.refused hphase (hasked.trans hasks) (hrequest ▸ hq) hresult
      exact .fails e (halike.trans (hsame.trans hsettled)) (Or.inr hasks)
    | some action =>
      obtain ⟨s₂, hbefore, hafter, rfl⟩ := hgoes.executed (hasked.trans hasks)
        (halike.closed.trans hopen) hresult
      exact .executes hvalid hasks (halike.trans hbefore) (hafter.trans hsettled)

end Scheduler

end Segments
