import Mathlib.Logic.Relation
import Segments.Engine.Scheduler
import Segments.Proofs.Traffic

/-!
# What a scheduler does is traffic

A scheduler decides which operation goes on next, and when one is given up. Whatever it decides is a
list of moves, so that all that holds after every list of moves holds of a store under a scheduler.
-/

namespace Segments

namespace Scheduler

/-- Traffic on the store of a scheduler that has the operations of the scheduler by their numbers;
those that were collected may have been forgotten. -/
structure Tracks (s : Scheduler) (t : Traffic) : Prop where
  /-- The stores agree. -/
  engine : t.engine = s.engine
  /-- Operations are numbered in order. -/
  count : t.operations.length = s.nextTask
  /-- Each operation is there. -/
  task : ∀ id x, s.tasks.get? id = some x → t.operations[id]? = some x.operation

/-- What a scheduler does is a list of moves. -/
def Reaches (s s' : Scheduler) : Prop := ∀ t, s.Tracks t → ∃ moves, s'.Tracks (t.run moves)

/-- Schedulers that differ at most in what goes on next. -/
structure Same (s s' : Scheduler) : Prop where
  /-- The stores agree. -/
  engine : s'.engine = s.engine
  /-- So do the operations. -/
  tasks : s'.tasks = s.tasks
  /-- The next operation gets the same number. -/
  nextTask : s'.nextTask = s.nextTask

variable {s s' s'' : Scheduler} {t : Traffic}

/-- A new scheduler has no operations to be tracked. -/
theorem tracks_ofEngine (engine : Engine) : (ofEngine engine).Tracks ⟨engine, []⟩ :=
  ⟨rfl, rfl, fun _ _ hx => by cases hx⟩

namespace Reaches

theorem refl (s : Scheduler) : s.Reaches s := fun _ ht => ⟨[], ht⟩

/-- Moves that follow moves are moves. -/
theorem trans (h : s.Reaches s') (h' : s'.Reaches s'') : s.Reaches s'' := by
  intro t ht
  obtain ⟨moves, ht'⟩ := h t ht
  obtain ⟨more, ht''⟩ := h' _ ht'
  exact ⟨moves ++ more, by rwa [Traffic.run_append]⟩

/-- One move is made. -/
theorem one {m : Move} (h : ∀ t, s.Tracks t → s'.Tracks (t.step m)) : s.Reaches s' :=
  fun t ht => ⟨[m], h t ht⟩

/-- Nothing is done to the store, and no operation goes on. -/
theorem of_tasks (hengine : s'.engine = s.engine) (hnext : s'.nextTask = s.nextTask)
    (htasks : ∀ id x', s'.tasks.get? id = some x' →
      ∃ x, s.tasks.get? id = some x ∧ x'.operation = x.operation) : s.Reaches s' := by
  intro t ht
  refine ⟨[], ht.engine.trans hengine.symm, ht.count.trans hnext.symm, fun id x' hx' => ?_⟩
  obtain ⟨x, hx, hop⟩ := htasks id x' hx'
  rw [hop]
  exact ht.task id x hx

/-- What goes on next is not seen by traffic. -/
theorem of_same (h : s.Same s') : s.Reaches s' :=
  of_tasks h.engine h.nextTask fun _ x hx => ⟨x, h.tasks ▸ hx, rfl⟩

/-- Something is done to the store alone. -/
theorem of_engine {m : Move} {engine : Engine}
    (hm : ∀ t : Traffic, t.engine = s.engine → t.step m = t.withEngine engine)
    (hs : s'.engine = engine) (htasks : s'.tasks = s.tasks) (hnext : s'.nextTask = s.nextTask) :
    s.Reaches s' := by
  refine one (m := m) fun t ht => ?_
  rw [hm t ht.engine]
  exact ⟨hs.symm, ht.count.trans hnext.symm, fun id x hx => ht.task id x (htasks ▸ hx)⟩

/-- A run of things that each are moves. -/
theorem foldl {α : Type} {f : Scheduler → α → Scheduler} (hf : ∀ s a, Reaches s (f s a))
    (s : Scheduler) (as : List α) : s.Reaches (as.foldl f s) := by
  induction as generalizing s with
  | nil => exact refl s
  | cons a as ih => exact (hf s a).trans (ih _)

end Reaches

theorem Same.refl (s : Scheduler) : s.Same s := ⟨rfl, rfl, rfl⟩

theorem Same.trans (h : s.Same s') (h' : s'.Same s'') : s.Same s'' :=
  ⟨h'.engine.trans h.engine, h'.tasks.trans h.tasks, h'.nextTask.trans h.nextTask⟩

/-- A run of things that leave store and operations leaves them. -/
theorem Same.foldl {α : Type} {f : Scheduler → α → Scheduler} (hf : ∀ s a, Same s (f s a))
    (s : Scheduler) (as : List α) : s.Same (as.foldl f s) := by
  induction as generalizing s with
  | nil => exact refl s
  | cons a as ih => exact (hf s a).trans (ih _)

/-- Waking a task makes no move. -/
theorem same_wake (s : Scheduler) (id : Nat) : s.Same (s.wake id) := by
  unfold wake
  split <;> exact ⟨rfl, rfl, rfl⟩

/-- A task that comes back makes no move. -/
theorem same_comeBack (s : Scheduler) (id : Nat) : s.Same (s.comeBack id) := by
  unfold comeBack
  split <;> exact ⟨rfl, rfl, rfl⟩

/-- A task that meets the gate makes no move. -/
theorem same_meetGate (s : Scheduler) (id : Nat) : s.Same (s.meetGate id) := by
  have hmet : s.Same { s with gate := s.gate.meet id } := ⟨rfl, rfl, rfl⟩
  unfold meetGate
  split
  · exact .refl s
  · simp only
    split
    · exact hmet
    · exact hmet.trans (same_comeBack _ id)

/-- Waking whoever is next at a line makes no move. -/
theorem same_wakeNext (s : Scheduler) (p : Place) : s.Same (s.wakeNext p) := by
  unfold wakeNext
  split
  · split
    · exact same_wake s _
    · exact .refl s
  · exact .refl s

/-- Waking those who watch the store makes no move. -/
theorem same_wakeWatching (s : Scheduler) : s.Same s.wakeWatching := by
  have hcleared : s.Same { s with watching := [] } := ⟨rfl, rfl, rfl⟩
  exact hcleared.trans (.foldl same_wake _ _)

/-- A task that is stored is found again. -/
theorem get?_store {id : Nat} {x : Task} (hx : s.tasks.get? id = some x) (y : Task)
    (engine : Engine) (events : List Event) :
    (s.store id y engine events).tasks.get? id = some y := by
  have htasks : (s.store id y engine events).tasks = s.tasks.modify id fun _ => y := rfl
  rw [htasks, Table.get?_modify, if_pos rfl, hx, Option.map_some]

/-- An operation that has gone on is put back with what it did to the store. -/
theorem Tracks.store (h : s.Tracks t) {id : Nat} {x y : Task} (hx : s.tasks.get? id = some x)
    (engine : Engine) (events : List Event) :
    (s.store id y engine events).Tracks ⟨engine, t.operations.set id y.operation⟩ := by
  refine ⟨rfl, by rw [List.length_set]; exact h.count, fun j z hz => ?_⟩
  have htasks : (s.store id y engine events).tasks = s.tasks.modify id fun _ => y := rfl
  rw [htasks, Table.get?_modify] at hz
  split at hz
  · next hj =>
    subst hj
    have hin := List.getElem?_eq_some_iff.mp (h.task j x hx)
    rw [hx, Option.map_some, Option.some.injEq] at hz
    rw [List.getElem?_set_self hin.1, hz]
  · next hj => rw [List.getElem?_set_ne (Ne.symm hj), h.task j z hz]

/-- An operation is taken one step further. -/
theorem reaches_advance {id : Nat} {x : Task} (hx : s.tasks.get? id = some x) {y : Task}
    (hy : y.operation = (s.engine.advance x.operation).2.1) (events : List Event) :
    s.Reaches (s.store id y (s.engine.advance x.operation).1 events) := by
  refine .one (m := .advance id) fun t ht => ?_
  have hstep : t.step (.advance id) = ⟨(s.engine.advance x.operation).1,
      t.operations.set id y.operation⟩ := by
    simp only [Traffic.step, ht.task id x hx, ht.engine, hy]
  rw [hstep]
  exact ht.store hx _ events

/-- An operation that has not ended is given up. -/
theorem reaches_abandoned {id : Nat} {x : Task} (hx : s.tasks.get? id = some x) {y : Task}
    {e : SegmentError} (hf : x.operation.phase.isFinished = false)
    (hy : y.operation = (s.engine.abandon x.operation e).2) (events : List Event) :
    s.Reaches (s.store id y (s.engine.abandon x.operation e).1 events) := by
  refine .one (m := .abandon id e) fun t ht => ?_
  have hstep : t.step (.abandon id e) = ⟨(s.engine.abandon x.operation e).1,
      t.operations.set id y.operation⟩ := by
    simp only [Traffic.step, ht.task id x hx, hf, Bool.false_eq_true, ↓reduceIte, ht.engine, hy]
  rw [hstep]
  exact ht.store hx _ events

/-- A task that is forgotten makes no move. -/
theorem reaches_forget (s : Scheduler) (id : Nat) : s.Reaches (s.forget id) := by
  refine .of_tasks rfl rfl fun j x hx => ?_
  rw [forget, Table.get?_erase] at hx
  split at hx
  · cases hx
  · exact ⟨x, hx, rfl⟩

/-- The reader that nobody will collect is closed. -/
theorem reaches_discard (s : Scheduler) (id : Nat) (x : Task) : s.Reaches (s.discard id x) := by
  unfold discard
  split
  · next reader _ =>
    refine (reaches_forget s id).trans
      (.of_engine (m := .close reader) (fun t ht => ?_) rfl rfl rfl)
    rw [Traffic.step, ht]
    rfl
  · exact reaches_forget s id
  · exact .refl s

/-- A task is concluded by moves. -/
theorem reaches_conclude (s : Scheduler) (id : Nat) (x : Task) (places : List Place) :
    s.Reaches (s.conclude id x places) := by
  have hwoken : s.Reaches (places.foldl wakeNext s).wakeWatching :=
    .of_same ((Same.foldl same_wakeNext s places).trans (same_wakeWatching _))
  unfold conclude
  simp only
  split
  · exact hwoken.trans (reaches_discard _ id x)
  · exact hwoken

/-- An operation of a task that is given up ends by moves. -/
theorem reaches_abandon {id : Nat} {x : Task} (hx : s.tasks.get? id = some x) {y : Task}
    (hy : y.operation = x.operation) (hf : y.isFinished = false) (e : SegmentError)
    (events : List Event) : s.Reaches (s.abandon id y e events) := by
  unfold Task.isFinished at hf
  rw [hy] at hf
  let given := s.store id { y with operation := (s.engine.abandon y.operation e).2 }
    (s.engine.abandon y.operation e).1 events
  have hgiven : s.Reaches given := by
    simp only [given, hy]
    exact reaches_abandoned hx hf rfl events
  have habandon : s.abandon id y e events =
      ({ given with watching := s.watching.filter (· != id) } : Scheduler).conclude id
        { y with operation := (s.engine.abandon y.operation e).2 } y.operation.phase.places := rfl
  have hsame : given.Same { given with watching := s.watching.filter (· != id) } := ⟨rfl, rfl, rfl⟩
  rw [habandon]
  exact (hgiven.trans (.of_same hsame)).trans (reaches_conclude _ id _ _)

/-- A task that leaves the waiting makes no move. -/
theorem same_leaveWaiting (s : Scheduler) (id : Nat) (x : Task) : s.Same (s.leaveWaiting id x) := by
  unfold leaveWaiting
  split
  · exact ⟨rfl, rfl, rfl⟩
  · exact same_comeBack s id
  · exact same_meetGate s id
  · exact .refl s

/-- An operation that is looked at and goes on, or is held by the gate. -/
theorem reaches_looked {id : Nat} {x : Task} (hx : s.tasks.get? id = some x)
    (deadline : Option Nat) (held : Bool) :
    s.Reaches (s.store id { x with
        deadline
        operation := (if held then (s.engine, x.operation, []) else
          s.engine.advance x.operation).2.1 }
      (if held then (s.engine, x.operation, []) else s.engine.advance x.operation).1
      (if held then (s.engine, x.operation, []) else s.engine.advance x.operation).2.2) := by
  cases held with
  | true =>
    refine .of_tasks rfl rfl fun j z hz => ?_
    have htasks : z = { x with deadline } ∧ j = id ∨ s.tasks.get? j = some z := by
      simp only [store, report, Table.get?_modify] at hz
      split at hz
      · next hj =>
        subst hj
        rw [hx, Option.map_some, Option.some.injEq] at hz
        exact Or.inl ⟨hz.symm, rfl⟩
      · exact Or.inr hz
    rcases htasks with ⟨rfl, rfl⟩ | hsame
    · exact ⟨x, hx, rfl⟩
    · exact ⟨z, hsame, rfl⟩
  | false => exact reaches_advance hx rfl _

/-- A task goes on by moves. -/
theorem reaches_proceed {id : Nat} {x : Task} (hx : s.tasks.get? id = some x) :
    s.Reaches (s.proceed id x) := by
  have hlooked := reaches_looked hx (some (x.deadline.getD (s.now + x.timeout))) (s.gate.holds id)
  unfold proceed
  simp only
  revert hlooked
  generalize (if s.gate.holds id then (s.engine, x.operation, []) else
    s.engine.advance x.operation) = next
  obtain ⟨engine, o, events⟩ := next
  intro hlooked
  have hget := get?_store hx { x with
    deadline := some (x.deadline.getD (s.now + x.timeout)), operation := o } engine events
  simp only
  split
  · exact hlooked.trans (reaches_conclude _ id _ _)
  · next hf =>
    split
    · exact hlooked.trans (reaches_abandon hget rfl (by simpa using hf) _ _)
    · exact hlooked.trans (.of_same (same_leaveWaiting _ id _))

/-- A task is polled by moves. -/
theorem reaches_poll (s : Scheduler) (id : Nat) : s.Reaches (s.poll id) := by
  unfold poll
  split
  · exact .refl s
  · next x hx =>
    split
    · exact .refl s
    · next hf =>
      split
      · exact reaches_abandon hx rfl (by simpa using hf) _ _
      · exact reaches_proceed hx

/-- The scheduler goes one step on by moves. -/
theorem reaches_step (s : Scheduler) : s.Reaches s.step := by
  unfold Scheduler.step
  split
  · next id rest _ =>
    have hsame : s.Same { s with ready := rest } := ⟨rfl, rfl, rfl⟩
    exact (Reaches.of_same hsame).trans (reaches_poll _ id)
  · next id rest _ _ =>
    have hsame : s.Same { s with returned := rest } := ⟨rfl, rfl, rfl⟩
    exact (Reaches.of_same hsame).trans (reaches_poll _ id)
  · exact .refl s

/-- Operations run until none goes on. -/
theorem reaches_run (fuel : Nat) (s : Scheduler) : s.Reaches (run fuel s) := by
  induction fuel generalizing s with
  | zero => exact .refl s
  | succ fuel ih =>
    rw [run]
    split
    · exact .refl s
    · exact (reaches_step s).trans (ih s.step)

/-- It goes on until nothing is left to do by moves. -/
theorem reaches_settle (s : Scheduler) : s.Reaches s.settle := reaches_run _ s

/-- Time passes by moves. -/
theorem reaches_passTime (s : Scheduler) : s.Reaches s.passTime := by
  unfold passTime
  split
  · exact .refl s
  · next deadline _ =>
    have hlater : s.Same { s with now := max s.now deadline } := ⟨rfl, rfl, rfl⟩
    exact (Reaches.of_same (hlater.trans (.foldl same_wake _ _))).trans (reaches_settle _)

/-- A task is waited for by moves. -/
theorem reaches_waitFor (id fuel : Nat) (s : Scheduler) : s.Reaches (waitFor id fuel s) := by
  induction fuel generalizing s with
  | zero => exact .refl s
  | succ fuel ih =>
    rw [waitFor]
    split
    · exact .refl s
    · exact (reaches_passTime s).trans (ih s.passTime)

/-- Waiting for an answer lets operations run and time pass. -/
theorem reaches_collect (s : Scheduler) (id : Nat) : s.Reaches (s.collect id).1 := by
  have hwaited : s.Reaches (if s.isFinished id then s else
      s.settle.waitFor id (s.tasks.size + 1)) := by
    split
    · exact .refl s
    · exact (reaches_settle s).trans (reaches_waitFor id _ _)
  unfold collect
  simp only
  split
  · exact hwaited.trans (reaches_forget _ id)
  · exact hwaited

/-- A request that is accepted gets the next number. -/
theorem reaches_submit {request : Request} {timeout id : Nat}
    (h : s.submit request timeout = .ok (s', id)) : s.Reaches s' := by
  unfold submit at h
  split at h
  · cases h
  · next engine o haccept =>
    simp only [Except.ok.injEq, Prod.mk.injEq] at h
    obtain ⟨rfl, -⟩ := h
    refine .one (m := .submit request timeout) fun t ht => ?_
    have hstep : t.step (.submit request timeout) = ⟨engine, t.operations ++ [o]⟩ := by
      simp only [Traffic.step, ht.engine, haccept]
    rw [hstep]
    refine ⟨rfl, by rw [List.length_append, ht.count]; rfl, fun j x hx => ?_⟩
    simp only [Table.get?_insert] at hx
    split at hx
    · next hj =>
      obtain rfl := Option.some.inj hx
      rw [hj, ← ht.count, List.getElem?_concat_length]
    · have hold := ht.task j x hx
      rw [List.getElem?_append_left (List.getElem?_eq_some_iff.mp hold).1, hold]

/-- Something about an operation changes, but not how far it has come. -/
theorem reaches_modify (s : Scheduler) (id : Nat) {f : Task → Task}
    (hf : ∀ x, (f x).operation = x.operation) :
    s.Reaches { s with tasks := s.tasks.modify id f } := by
  refine .of_tasks rfl rfl fun j x hx => ?_
  simp only [Table.get?_modify] at hx
  split at hx
  · obtain ⟨y, hy, rfl⟩ := Option.map_eq_some_iff.mp hx
    exact ⟨y, hy, hf y⟩
  · exact ⟨x, hx, rfl⟩

/-- A task is cancelled by moves. -/
theorem reaches_cancel (s : Scheduler) (id : Nat) : s.Reaches (s.cancel id) := by
  have hasked := s.reaches_modify id (f := fun x => { x with cancelled := true }) fun _ => rfl
  unfold cancel
  split
  · exact .refl s
  · exact hasked.trans (.of_same (same_wake _ id))

/-- A task that its owner drops makes moves at most. -/
theorem reaches_leave (s : Scheduler) (id : Nat) : s.Reaches (s.leave id) := by
  have hleft := s.reaches_modify id (f := fun x => { x with unattended := true }) fun _ => rfl
  unfold leave
  split
  · exact .refl s
  · exact hleft.trans (reaches_discard _ id _)

/-- What can be done to a store under a scheduler. -/
inductive Does (s : Scheduler) : Scheduler → Prop where
  /-- A request is accepted. -/
  | submit {s' : Scheduler} {request : Request} {timeout id : Nat}
      (accepted : s.submit request timeout = .ok (s', id)) : Does s s'
  /-- An operation goes on. -/
  | step : Does s s.step
  /-- An answer is waited for. -/
  | collect (id : Nat) : Does s (s.collect id).1
  /-- The cancellation of an operation is asked for. -/
  | cancel (id : Nat) : Does s (s.cancel id)
  /-- An operation is left to itself. -/
  | leave (id : Nat) : Does s (s.leave id)
  /-- All operations are left to themselves. -/
  | leaveAll : Does s s.leaveAll
  /-- Time passes to the next deadline. -/
  | passTime : Does s s.passTime
  /-- The gate is armed. -/
  | armGate : Does s s.armGate
  /-- The gate is opened. -/
  | openGate : Does s s.openGate
  /-- A segment is evicted. -/
  | evict (name : String) : Does s (s.evict name).1
  /-- The store is shut down. -/
  | shutdown : Does s s.shutdown.1
  /-- The attribute store begins to refuse writes, or takes them again. -/
  | refuseAttributes (refusing : Bool) : Does s (s.refuseAttributes refusing)
  /-- The journal device is set to crash. -/
  | crashAfter (threshold : Nat) :
      Does s (s.modifySwitch fun w => { w with threshold := some threshold })
  /-- Flushes of the journal device begin to fail, or succeed again. -/
  | failFlush (fail : Bool) : Does s (s.modifySwitch fun w => { w with failFlush := fail })
  /-- The clock is read again. -/
  | tick (clock : AttributeValue) : Does s { s with engine := { s.engine with clock } }

/-- Whatever is done to a store under a scheduler is a list of moves. -/
theorem Does.reaches (h : s.Does s') : s.Reaches s' := by
  cases h with
  | submit accepted => exact reaches_submit accepted
  | step => exact reaches_step s
  | collect id => exact reaches_collect s id
  | cancel id => exact reaches_cancel s id
  | leave id => exact reaches_leave s id
  | leaveAll => exact .foldl reaches_leave s _
  | passTime => exact reaches_passTime s
  | armGate => exact .of_same ⟨rfl, rfl, rfl⟩
  | openGate =>
    have hopened : s.Same { s with gate := .opened } := ⟨rfl, rfl, rfl⟩
    exact .of_same (hopened.trans (.foldl same_comeBack _ _))
  | evict name =>
    exact .of_engine (m := .evict name) (fun t ht => by rw [Traffic.step, ht]; rfl) rfl rfl rfl
  | shutdown =>
    exact .of_engine (m := .shutdown) (fun t ht => by rw [Traffic.step, ht]; rfl) rfl rfl rfl
  | refuseAttributes refusing =>
    exact .of_engine (m := .refuse refusing) (fun t ht => by rw [Traffic.step, ht]; rfl) rfl rfl rfl
  | crashAfter threshold =>
    exact .of_engine (m := .crashAfter threshold) (fun t ht => by rw [Traffic.step, ht]; rfl)
      rfl rfl rfl
  | failFlush fail =>
    exact .of_engine (m := .failFlush fail) (fun t ht => by rw [Traffic.step, ht]; rfl) rfl rfl rfl
  | tick clock =>
    exact .of_engine (m := .tick clock) (fun t ht => by rw [Traffic.step, ht]) rfl rfl rfl

/-- A store under a scheduler is at every moment the store of some traffic. -/
theorem exists_run_of_does {engine : Engine}
    (h : Relation.ReflTransGen Does (ofEngine engine) s) :
    ∃ moves, s.Tracks ((⟨engine, []⟩ : Traffic).run moves) := by
  have hreaches : (ofEngine engine).Reaches s := by
    induction h with
    | refl => exact .refl _
    | tail _ hdoes ih => exact ih.trans hdoes.reaches
  exact hreaches _ (tracks_ofEngine engine)

end Scheduler

end Segments
