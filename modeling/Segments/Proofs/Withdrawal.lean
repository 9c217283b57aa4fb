import Segments.Proofs.Failure
import Segments.Proofs.Suspension

/-!
# Operations that are given up

An operation may be given up wherever it waits. Whatever else happens then could as well have
happened after it was given up, and to the same end, `stride_without`; only who has waited for it has
not come as far as without it, and catches up when it goes on.
-/

namespace Segments

namespace Pending

variable {p q : Pending} {rs more : List Registration}

theorem eq_of (hlast : p.last = q.last) (hlive : p.live = q.live) : p = q := by
  cases p
  cases q
  obtain rfl : _ = _ := hlast
  obtain rfl : _ = _ := hlive
  rfl

/-- Who has been released is not there to be released again. -/
theorem releaseAll_self (p : Pending) (rs : List Registration) :
    (p.releaseAll rs).releaseAll rs = p.releaseAll rs := by
  apply eq_of
  · rw [releaseAll_last]
  · rw [releaseAll_live, releaseAll_live, List.filter_filter]
    simp only [Bool.and_self]

/-- It does not matter which registrations are released first. -/
theorem releaseAll_comm (p : Pending) (rs more : List Registration) :
    (p.releaseAll rs).releaseAll more = (p.releaseAll more).releaseAll rs := by
  apply eq_of
  · simp only [releaseAll_last]
  · simp only [releaseAll_live, List.filter_filter]
    exact List.filter_congr fun r _ => Bool.and_comm _ _

/-- Those who are registered do not notice that others have been released. -/
theorem registerAll_releaseAll (p : Pending) (hrs : ∀ r ∈ rs, r.ticket ≤ p.last)
    (names : List String) :
    (p.releaseAll rs).registerAll names =
      ((p.registerAll names).1.releaseAll rs, (p.registerAll names).2) := by
  induction names generalizing p with
  | nil => rfl
  | cons name names ih =>
    have hregister : (p.releaseAll rs).register name =
        ((p.register name).1.releaseAll rs, (p.register name).2) := by
      have hnew : (⟨name, p.last + 1⟩ : Registration) ∉ rs := fun hin =>
        Nat.not_succ_le_self _ (hrs _ hin)
      simp only [register, releaseAll_last]
      refine Prod.ext (eq_of ?_ ?_) rfl
      · rw [releaseAll_last]
      · simp only [releaseAll_live, List.filter_append]
        rw [List.filter_cons_of_pos (by simpa using hnew), List.filter_nil]
    simp only [registerAll, hregister]
    rw [ih (p.register name).1 fun r hr => Nat.le_succ_of_le (hrs r hr)]

/-- Who is released right after it was registered leaves only that tickets were given out. -/
theorem releaseAll_registerAll (p : Pending) (hlive : ∀ r ∈ p.live, r.ticket ≤ p.last)
    (names : List String) :
    (p.registerAll names).1.releaseAll (p.registerAll names).2 =
      { p with last := (p.registerAll names).1.last } := by
  obtain ⟨hall, hnew⟩ := p.registerAll_live names
  refine eq_of (releaseAll_last _ _) ?_
  rw [releaseAll_live, hall, List.filter_append]
  have hold : p.live.filter (fun r => decide (r ∉ (p.registerAll names).2)) = p.live := by
    refine List.filter_eq_self.mpr fun r hr => decide_eq_true fun hin => ?_
    exact Nat.not_lt.mpr (hlive r hr) (hnew r hin)
  have hgone : (p.registerAll names).2.filter
      (fun r => decide (r ∉ (p.registerAll names).2)) = [] :=
    List.filter_eq_nil_iff.mpr fun r hr => by simp [hr]
  rw [hold, hgone, List.append_nil]

end Pending

namespace Engine

variable {s : Engine} {mine others : List Place} {rs more : List Registration} {o : Operation}

theorem without_without (hw : s.LinesFormed) :
    (s.without mine rs).without others more = (s.without others more).without mine rs := by
  unfold without
  rw [recast_recast, recast_recast]
  refine recast_congr (fun id e he => ?_) (s.pending.releaseAll_comm rs more)
  rw [← lines_of_get? he]
  exact (hw id).without_comm

theorem settle_without (s : Engine) (mine : List Place) (rs : List Registration) (o : Operation) :
    (s.without mine rs).settle o = (s.settle o).without mine rs := by
  unfold settle
  split
  · unfold without recast
    simp only [Pending.releaseAll_comm _ rs]
  · rfl

end Engine

/-- Whether a stride is one of an operation. -/
def Stride.isOf (i : Nat) : Stride → Bool
  | moved (.advance j) | moved (.pause j) | moved (.abandon j _) => j == i
  | _ => false

namespace Traffic

open Engine

variable {t : Traffic} {a : Account} {i j : Nat} {o c : Operation} {error : SegmentError}

/-- The store after an operation went on. -/
theorem step_advance (ho : t.operations[i]? = some o) : t.step (.advance i) =
    ⟨(t.engine.advance o).1, t.operations.set i (t.engine.advance o).2.1⟩ := by
  simp only [step, ho]

/-- The store after an operation went to its next turn. -/
theorem pause_of_some (ho : t.operations[i]? = some o) : t.pause i =
    ⟨(t.engine.comeToTurn o).1,
      t.operations.set i { o with phase := (t.engine.comeToTurn o).2 }⟩ := by
  simp only [pause, ho]

/-- The store after an operation was given up. -/
theorem step_abandon (ho : t.operations[i]? = some o) (hf : o.phase.isFinished = false)
    (error : SegmentError) :
    t.step (.abandon i error) = ⟨t.engine.without o.phase.places o.registrations,
      t.operations.set i { o with phase := .finished (.error error) }⟩ := by
  simp only [step, ho, hf, Bool.false_eq_true, ↓reduceIte, abandon_fst]
  rfl

/-- A store in which an operation has not come as far as in another; when it goes on it catches
up. -/
structure Lags (t t' : Traffic) (j : Nat) : Prop where
  /-- Nothing else than the lines tells the stores apart. -/
  relined : t.engine.Relined t'.engine
  /-- The other operations are the same. -/
  others : ∀ k, k ≠ j → t'.operations[k]? = t.operations[k]?
  /-- The operation has not ended. -/
  unfinished : ∃ c, t'.operations[j]? = some c ∧ c.phase.isFinished = false
  /-- It catches up. -/
  catches : t'.step (.advance j) = t.step (.advance j)

/-- Who has waited for an operation has not come as far as without it. -/
theorem Lags.of_waits {s s' : Engine} {mine : List Place} {rs : List Registration}
    {operations : List Operation} {o' : Operation} {phase : Phase} (hrelined : s.Relined s')
    (hf : phase.isFinished = false) (hij : j ≠ i) (hc : operations[j]? = some c)
    (hcatches : (s'.without mine rs).advancePhase { c with phase } =
      (s.without mine rs).advancePhase c) :
    Lags ⟨s.without mine rs, operations.set i o'⟩
      ⟨s'.without mine rs, (operations.set j { c with phase }).set i o'⟩ j := by
  obtain ⟨hj, -⟩ := List.getElem?_eq_some_iff.mp hc
  have hfound : ((operations.set j { c with phase }).set i o')[j]? = some { c with phase } :=
    (List.getElem?_set_ne hij.symm).trans (List.getElem?_set_self hj)
  have hlines := hrelined.recast (fun id l => l.without id mine) (fun id l => l.without id mine)
    fun p => p.releaseAll rs
  refine ⟨hlines, fun k hk => ?_, ⟨_, hfound, hf⟩, ?_⟩
  · rw [List.set_comm _ _ hij, List.getElem?_set_ne hk.symm]
  · have hold : (operations.set i o')[j]? = some c := (List.getElem?_set_ne hij.symm).trans hc
    rw [step_advance hfound, step_advance hold]
    simp only [Engine.advance, hcatches, List.set_comm _ _ hij, List.set_set]

/-- The tickets of an operation in line were given out. -/
theorem Queued.known (hq : t.Queued) (ho : t.operations[i]? = some o) :
    ∀ p ∈ o.phase.places, p.ticket ≤ (t.engine.lines p.segment).issued :=
  fun _ hp => (hq.formed _).issued _ ((hq.placed i o ho).mem_tickets hp)

/-- An operation goes on in the store without another one. -/
theorem advance_without (hq : t.Queued) (h : t.engine.Outlines a)
    (ho : t.operations[i]? = some o) (hf : o.phase.isFinished = false) (hij : j ≠ i)
    (error : SegmentError) :
    (t.step (.advance j)).step (.abandon i error) = (t.step (.abandon i error)).step (.advance j) ∨
      (t.step (.abandon i error)).Lags ((t.step (.advance j)).step (.abandon i error)) j := by
  have hother : ∀ o', (t.operations.set i o')[j]? = t.operations[j]? :=
    fun o' => List.getElem?_set_ne hij.symm
  cases hc : t.operations[j]? with
  | none =>
    have hstays : ∀ u : Traffic, u.operations[j]? = none → u.step (.advance j) = u :=
      fun u hu => by simp only [Traffic.step, hu]
    left
    rw [hstays t hc, step_abandon ho hf, hstays _ ((hother _).trans hc)]
  | some c =>
    have ho' : (t.step (.advance j)).operations[i]? = some o := by
      rw [step_advance hc]
      exact (List.getElem?_set_ne hij).trans ho
    have hbeside := advancePhase_without o.registrations h hq.formed (hq.known ho)
      (hq.placed j c hc) (hq.apart j i c o hij hc ho)
    rw [step_abandon ho' hf, step_abandon ho hf, step_advance hc]
    simp only [Engine.advance]
    cases hbeside with
    | same engine phase =>
      left
      simp only [Traffic.step, hother, hc, Engine.advance, engine, phase, settle_without,
        List.set_comm _ _ hij]
    | later unfinished relined catches =>
      right
      rw [settle_of_unfinished (o := { c with phase := _ }) unfinished]
      exact .of_waits relined unfinished hij hc catches

/-- An operation goes to its next turn in the store without another one. -/
theorem pause_without (hq : t.Queued) (h : t.engine.Outlines a) (ha : a.WellFormed)
    (ho : t.operations[i]? = some o) (hf : o.phase.isFinished = false) (hij : j ≠ i)
    (error : SegmentError) :
    (t.pause j).step (.abandon i error) = (t.step (.abandon i error)).pause j ∨
      (t.step (.abandon i error)).Lags ((t.pause j).step (.abandon i error)) j := by
  have hother : ∀ o', (t.operations.set i o')[j]? = t.operations[j]? :=
    fun o' => List.getElem?_set_ne hij.symm
  cases hc : t.operations[j]? with
  | none =>
    left
    simp only [step_abandon ho hf, pause, hother, hc]
  | some c =>
    have ho' : (t.pause j).operations[i]? = some o := by
      rw [pause_of_some hc]
      exact (List.getElem?_set_ne hij).trans ho
    have hpauses := comeToTurn_without o.registrations h ha hq.formed (hq.known ho)
      (hq.placed j c hc) (hq.merges j c hc) (hq.apart j i c o hij hc ho)
    rw [step_abandon ho' hf, step_abandon ho hf, pause_of_some hc]
    cases hpauses with
    | same engine phase =>
      left
      simp only [pause, hother, hc, engine, phase, List.set_comm _ _ hij]
    | later unfinished relined catches =>
      right
      exact .of_waits relined unfinished hij hc catches

/-- What concerns only the store, and neither lines nor registrations, happens without an operation
as with it. -/
theorem withEngine_without (ho : t.operations[i]? = some o) (hf : o.phase.isFinished = false)
    (error : SegmentError) (f : Engine → Engine)
    (hlines : f (t.engine.without o.phase.places o.registrations) =
      (f t.engine).without o.phase.places o.registrations) :
    (t.withEngine (f t.engine)).step (.abandon i error) =
      (t.step (.abandon i error)).withEngine (f (t.step (.abandon i error)).engine) := by
  rw [step_abandon (t := t.withEngine (f t.engine)) ho hf, step_abandon ho hf, hlines]
  rfl

/-- The store after a request was accepted. -/
theorem step_submit {request : Request} {timeout : Nat}
    (h : request.validate t.engine.config timeout = .ok ()) :
    t.step (.submit request timeout) =
      ⟨{ t.engine with pending := (t.engine.pending.registerAll request.names).1 },
        t.operations ++ [⟨request, t.engine.pending.barrier,
          (t.engine.pending.registerAll request.names).2, .accepted⟩]⟩ := by
  simp only [Traffic.step, accept_of_validate h]

/-- A request is accepted without an operation. -/
theorem submit_without (hr : t.Registered) (ho : t.operations[i]? = some o)
    (hf : o.phase.isFinished = false) (error : SegmentError) (request : Request) (timeout : Nat) :
    (t.step (.submit request timeout)).step (.abandon i error) =
      (t.step (.abandon i error)).step (.submit request timeout) := by
  obtain ⟨hi, -⟩ := List.getElem?_eq_some_iff.mp ho
  have hconfig : (t.step (.abandon i error)).engine.config = t.engine.config := by
    rw [step_abandon ho hf]
    rfl
  cases hvalid : request.validate t.engine.config timeout with
  | error e =>
    have hrefused : ∀ u : Traffic, u.engine.config = t.engine.config →
        u.step (.submit request timeout) = u := by
      intro u hu
      simp only [Traffic.step, Engine.accept, hu, hvalid]
    rw [hrefused t rfl, hrefused _ hconfig]
  | ok u =>
    have hrest := Pending.registerAll_releaseAll t.engine.pending
      (fun r hin => (hr.numbered i o ho r hin).2) request.names
    have hpending : (t.engine.without o.phase.places o.registrations).pending =
        t.engine.pending.releaseAll o.registrations := rfl
    have hbarrier : (t.engine.pending.releaseAll o.registrations).barrier =
        t.engine.pending.barrier := Pending.releaseAll_last _ _
    rw [step_submit hvalid, step_submit (hconfig ▸ hvalid), step_abandon ho hf,
      step_abandon ((List.getElem?_append_left hi).trans ho) hf, List.set_append_left _ _ hi]
    simp only [hpending, hrest, hbarrier]
    rfl

/-- An operation is given up in the store without another one. -/
theorem abandon_without (hq : t.Queued) (ho : t.operations[i]? = some o)
    (hf : o.phase.isFinished = false) (hij : j ≠ i) (error error' : SegmentError) :
    (t.step (.abandon j error')).step (.abandon i error) =
      (t.step (.abandon i error)).step (.abandon j error') := by
  have hstays : ∀ u : Traffic, u.operations[j]? = t.operations[j]? →
      (∀ c, t.operations[j]? = some c → c.phase.isFinished = true) →
      u.step (.abandon j error') = u := by
    intro u hu hended
    simp only [Traffic.step, hu]
    split
    · rfl
    · next c hc => rw [if_pos (hended c hc)]
  have hother : (t.step (.abandon i error)).operations[j]? = t.operations[j]? := by
    rw [step_abandon ho hf]
    exact List.getElem?_set_ne hij.symm
  by_cases hended : ∀ c, t.operations[j]? = some c → c.phase.isFinished = true
  · rw [hstays t rfl hended, hstays _ hother hended]
  · obtain ⟨c, hc, hg⟩ : ∃ c, t.operations[j]? = some c ∧ c.phase.isFinished = false := by
      simpa using hended
    have ho' : (t.step (.abandon j error')).operations[i]? = some o := by
      rw [step_abandon hc hg]
      exact (List.getElem?_set_ne hij).trans ho
    rw [step_abandon ho' hf, step_abandon (hother.trans hc) hg, step_abandon hc hg,
      step_abandon ho hf, without_without hq.formed, List.set_comm _ _ hij]

/-- Whatever happens but for the steps of an operation happens in the store without it, or an
operation that has waited for it has not come as far. -/
theorem stride_without (hq : t.Queued) (hr : t.Registered) (h : t.engine.Outlines a)
    (ha : a.WellFormed) (ho : t.operations[i]? = some o) (hf : o.phase.isFinished = false)
    {x : Stride} (hopen : x.staysOpen = true) (hx : x.isOf i = false) (error : SegmentError) :
    (t.stride x).step (.abandon i error) = (t.step (.abandon i error)).stride x ∨
      ∃ j, (x = .moved (.advance j) ∨ x = .moved (.pause j)) ∧
        (t.step (.abandon i error)).Lags ((t.stride x).step (.abandon i error)) j := by
  have hne : ∀ j, (j == i) = false → j ≠ i := fun j hj => by simpa using hj
  have hstore := withEngine_without ho hf error
  cases x with
  | reopened config left clock => cases hopen
  | moved m =>
    cases m with
    | submit request timeout => exact Or.inl (submit_without hr ho hf error request timeout)
    | advance j =>
      refine (advance_without hq h ho hf (hne j hx) error).imp id fun hlags => ?_
      exact ⟨j, Or.inl rfl, hlags⟩
    | pause j =>
      refine (pause_without hq h ha ho hf (hne j hx) error).imp id fun hlags => ?_
      exact ⟨j, Or.inr rfl, hlags⟩
    | abandon j error' => exact Or.inl (abandon_without hq ho hf (hne j hx) error error')
    | evict name =>
      exact Or.inl (hstore (fun s => (s.evict name).1) (evict_recast t.engine _ _ h name))
    | trim segment max =>
      exact Or.inl (hstore (fun s => s.trim segment max)
        (modifyEntry_recast t.engine segment fun _ _ => rfl))
    | writeThrough segment =>
      exact Or.inl (hstore (fun s => (s.writeThrough segment).1)
        (writeThrough_recast t.engine _ _ segment))
    | close reader =>
      exact Or.inl (hstore (fun s => s.closeReader reader)
        (modifyEntry_recast t.engine reader.segment fun _ _ => rfl))
    | shutdown =>
      exact Or.inl (hstore (fun s => s.shutdown.1) (shutdown_recast t.engine _ _))
    | refuse refusing =>
      exact Or.inl (hstore (fun s => { s with store := { s.store with refusing } }) rfl)
    | tick clock => exact Or.inl (hstore (fun s => { s with clock }) rfl)
    | crashAfter threshold =>
      exact Or.inl (hstore
        (fun s => s.modifySwitch fun w => { w with threshold := some threshold }) rfl)
    | failFlush fail =>
      exact Or.inl (hstore (fun s => s.modifySwitch fun w => { w with failFlush := fail }) rfl)

end Traffic

end Segments
