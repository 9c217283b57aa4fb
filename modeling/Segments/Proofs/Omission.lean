import Segments.Proofs.Withdrawal

/-!
# Courses without an operation

An operation that has not ended has changed nothing, and neither has one that was given up. When it
is given up it leaves the lines and its registrations end. So the store is then what it is at the
end of a course in which the operation was given up as soon as it was accepted, `omits_along`, and
that store differs from one in which it never was only by the tickets that were given out.
-/

namespace Segments

/-- Whether an answer tells that an operation was given up. -/
def SegmentError.isWithdrawal : SegmentError → Bool
  | timeout .. | cancelled _ => true
  | _ => false

/-- A journal that does not take a record stays as it is, unless its device has failed. -/
theorem OperationLog.append_failed {log log' : OperationLog} {record : Record} {e : SegmentError}
    (h : log.append record = (log', .error e)) :
    log' = log ∨ ∃ failure, e = .storage failure := by
  unfold append at h
  split at h
  · obtain ⟨rfl, -⟩ := Prod.mk.inj h
    exact Or.inl rfl
  · unfold write at h
    split at h
    · exact Or.inr ⟨_, (Except.error.inj (Prod.mk.inj h).2).symm⟩
    · split at h
      · split at h
        · exact Or.inr ⟨_, (Except.error.inj (Prod.mk.inj h).2).symm⟩
        · cases (Prod.mk.inj h).2
      · cases (Prod.mk.inj h).2

namespace Engine

variable {s s' : Engine} {o : Operation} {phase : Phase}

/-- A change that was given up was not made. -/
theorem execute_withdrawn {action : Action} {e : SegmentError}
    (h : (s.execute action).2.2 = .error e) (he : e.isWithdrawal = true) :
    s.Alike (s.execute action).1 := by
  obtain ⟨hsame, hlog⟩ := executeBy_failed s s.evaluation action h
  have hunlogged : (s.execute action).1.log = s.log := by
    rcases hlog with hlog | ⟨record, e', happend, hresult⟩
    · exact hlog
    · obtain rfl : e = e' := by simpa using hresult
      rcases OperationLog.append_failed happend with hstays | ⟨failure, rfl⟩
      · exact hstays
      · cases he
  rw [← hunlogged] at hsame
  exact hsame

/-- A step of an operation leaves the store as it was unless it ends with an answer of its own. -/
theorem Goes.undone (h : Goes s o s' phase)
    (hundone : ∀ result, phase.result? = some result →
      ∃ error, result = .error error ∧ error.isWithdrawal = true) : s.Alike s' := by
  cases h with
  | waits alike => exact alike
  | queues held place wanted asked alike => exact alike
  | closes closed alike => exact alike
  | answers result none fails alike => exact alike
  | @executes s₁ _ action asked alike isOpen after =>
    obtain ⟨error, hresult, hwithdrawal⟩ := hundone _ rfl
    exact (alike.trans (execute_withdrawn hresult hwithdrawal)).trans after
  | begins ids cache found readable quiet => exact .touch s _ ids
  | reads hphase => exact .refl s
  | @ends id l cache values hphase =>
    obtain ⟨answer, hanswer⟩ := finishLookup_finished s id l cache values
    obtain ⟨error, hresult, -⟩ := hundone _ (Phase.result?_eq_some.mpr hanswer)
    cases hresult
  | stays hphase => exact .refl s

end Engine

namespace Traffic

open Engine

variable {t u : Traffic} {a : Account} {i : Nat} {o : Operation} {x : Stride} {w : List Stride}
  {result : Except SegmentError Answer}

/-! ## How operations end -/

/-- An operation has not ended, or it has ended since it was given up. -/
def Undone (t : Traffic) (i : Nat) : Prop :=
  ∀ result, t.result? i = some result → ∃ error, result = .error error ∧ error.isWithdrawal = true

/-- What has not ended in the end had not ended before. -/
theorem result?_of_along (h : (t.along w).result? i = none)
    (hopen : ∀ x ∈ w, x.staysOpen = true) : t.result? i = none := by
  cases hresult : t.result? i with
  | none => rfl
  | some result =>
    rw [result?_along hresult hopen] at h
    cases h

theorem Undone.before (h : (t.along w).Undone i) (hopen : ∀ x ∈ w, x.staysOpen = true) :
    t.Undone i := fun _ hresult => h _ (result?_along hresult hopen)

/-- A stride of an operation leaves the store as it was unless the operation ends with an answer of
its own. -/
theorem stride_undone (hx : x.isOf i = true) (h : (t.stride x).Undone i) :
    t.engine.Alike (t.stride x).engine := by
  match x with
  | .moved (.pause j) => exact t.pause_alike j
  | .moved (.advance j) =>
    obtain rfl : j = i := eq_of_beq hx
    cases ho : t.operations[j]? with
    | none =>
      simp only [stride, Traffic.step, ho]
      exact .refl _
    | some o =>
      obtain ⟨hj, -⟩ := List.getElem?_eq_some_iff.mp ho
      have hresult : (t.stride (.moved (.advance j))).result? j =
          (t.engine.advancePhase o).2.1.result? := by
        simp only [stride, Traffic.step, result?, ho, List.getElem?_set_self hj]
        rfl
      have hgoes := (t.engine.advancePhase_goes o).undone fun result hphase =>
        h result (hresult.trans hphase)
      simp only [stride, Traffic.step, ho]
      exact hgoes.trans (.settle _ _)
  | .moved (.abandon j error) =>
    simp only [stride, Traffic.step]
    split
    · exact .refl _
    · split
      · exact .refl _
      · exact .abandon t.engine _ error

/-! ## What is left of an operation that is given up -/

/-- A store in which an operation was given up. -/
structure Withdrawn (t : Traffic) (i : Nat) (o : Operation) (error : SegmentError) (u : Traffic) :
    Prop where
  /-- The operation has ended. -/
  ended : u.result? i = some (.error error)
  /-- The others are where they were. -/
  others : ∀ j, j ≠ i → u.operations[j]? = t.operations[j]?
  /-- Only its places are gone from the lines. -/
  tickets : ∀ id, (u.engine.lines id).tickets =
    (t.engine.lines id).tickets.filter fun ticket => decide (⟨id, ticket⟩ ∉ o.phase.places)
  /-- Others have the turns that they had, and no more. -/
  turns : ∀ p, p ∉ o.phase.places → u.engine.hasTurn p = t.engine.hasTurn p
  /-- Whoever stands first now has the turn or is offered it. -/
  offered : ∀ id ticket, (u.engine.lines id).tickets.head? = some ticket →
    (u.engine.lines id).turn = .held ticket ∨ (u.engine.lines id).turn = .offered ticket
  /-- Only its registrations have ended. -/
  registrations : u.engine.pending.live =
    t.engine.pending.live.filter fun r => decide (r ∉ o.registrations)
  /-- Segments, names and attributes are what they were. -/
  unchanged : t.engine.Unchanged u.engine
  /-- So is the journal. -/
  log : u.engine.log = t.engine.log
  /-- Nothing comes of the operation any more. -/
  idle : ∀ x, x.isOf i = true → u.stride x = u

/-- An operation that has ended does nothing more, and has no registrations to end. -/
theorem stride_ended (ho : t.operations[i]? = some o) (hphase : o.phase = .finished result)
    (hreleased : t.engine.pending.releaseAll o.registrations = t.engine.pending)
    (hx : x.isOf i = true) : t.stride x = t := by
  have hoperations : t.operations.set i { o with phase := .finished result } = t.operations := by
    obtain ⟨hi, hfound⟩ := List.getElem?_eq_some_iff.mp ho
    rw [← hphase, ← hfound]
    exact List.set_getElem_self hi
  match x with
  | .moved (.pause j) =>
    obtain rfl : j = i := eq_of_beq hx
    simp only [stride, Traffic.step, pause, ho, comeToTurn, hphase, hoperations]
  | .moved (.advance j) =>
    obtain rfl : j = i := eq_of_beq hx
    simp only [stride, Traffic.step, ho, Engine.advance, Engine.advancePhase, hphase,
      Engine.settle, Phase.isFinished, ↓reduceIte, hreleased, hoperations]
  | .moved (.abandon j error) =>
    obtain rfl : j = i := eq_of_beq hx
    simp only [stride, Traffic.step, ho, hphase, Phase.isFinished, ↓reduceIte]

/-- Giving an operation up leaves nothing of it. -/
theorem Queued.withdrawn (hq : t.Queued) (hr : t.engine.InOrder) (ho : t.operations[i]? = some o)
    (hf : o.phase.isFinished = false) (error : SegmentError) :
    t.Withdrawn i o error (t.step (.abandon i error)) := by
  obtain ⟨hi, -⟩ := List.getElem?_eq_some_iff.mp ho
  have hstep := step_abandon ho hf error
  have hclears := clears_without hq.formed o.phase.places o.registrations
  have halike : t.engine.Alike (t.engine.without o.phase.places o.registrations) := .recast _ _ _
  rw [hstep]
  refine ⟨?_, fun j hj => List.getElem?_set_ne hj.symm, hclears.tickets, fun p hp => ?_,
    fun id ticket hfirst => ?_, Pending.releaseAll_live _ _, halike.unchanged hr, rfl,
    fun x hx => ?_⟩
  · simp only [result?, List.getElem?_set_self hi]
    rfl
  · rw [hasTurn_eq, hasTurn_eq, lines_without, TurnLine.holds_without hp]
  · exact (hclears.spares.formed id).turn_of_head? hfirst
  · exact stride_ended (List.getElem?_set_self hi) rfl (Pending.releaseAll_self _ _) hx

/-! ## The course in which it was given up at once -/

theorem unfinished_of_result? (h : t.result? i = none) (ho : t.operations[i]? = some o) :
    o.phase.isFinished = false := by
  rw [result?, ho, Option.bind_some] at h
  cases hphase : o.phase with
  | finished result =>
    rw [hphase] at h
    cases h
  | _ => rfl

/-- A stride of an operation that does not end with it leaves nothing behind when the operation is
given up. -/
theorem own_without (hq : t.Queued) (h : t.engine.Outlines a) (ha : a.WellFormed)
    (ho : t.operations[i]? = some o) (hx : x.isOf i = true) (hopen : x.staysOpen = true)
    (hnone : (t.stride x).result? i = none) (error : SegmentError) :
    (t.step (.abandon i error)).engine.Skips ((t.stride x).step (.abandon i error)).engine ∧
      ((t.stride x).step (.abandon i error)).operations =
        (t.step (.abandon i error)).operations := by
  obtain ⟨hi, -⟩ := List.getElem?_eq_some_iff.mp ho
  have hf := unfinished_of_result?
    (result?_of_along (w := [x]) hnone (List.forall_mem_singleton.mpr hopen)) ho
  have hplaced := hq.placed i o ho
  have hmerges := hq.merges i o ho
  rw [step_abandon ho hf]
  match x with
  | .moved (.pause j) =>
    obtain rfl : j = i := eq_of_beq hx
    have hpause : t.stride (.moved (.pause j)) = _ := pause_of_some ho
    rw [hpause, step_abandon (List.getElem?_set_self hi)
      ((comeToTurn_isFinished t.engine o).trans hf), List.set_set]
    exact ⟨comeToTurn_skips h ha hq.formed hplaced hmerges hf o.registrations, rfl⟩
  | .moved (.advance j) =>
    obtain rfl : j = i := eq_of_beq hx
    have hstep : t.stride (.moved (.advance j)) = _ := step_advance ho
    rw [hstep] at hnone ⊢
    have hgoes : (t.engine.advancePhase o).2.1.isFinished = false :=
      unfinished_of_result? hnone (List.getElem?_set_self hi)
    have hsettled : (t.engine.advance o).1 = (t.engine.advancePhase o).1 :=
      settle_of_unfinished (o := { o with phase := (t.engine.advancePhase o).2.1 }) hgoes
    rw [step_abandon (List.getElem?_set_self hi) hgoes, List.set_set, hsettled]
    exact ⟨advancePhase_skips h ha hq.formed hplaced hmerges hgoes o.registrations, rfl⟩
  | .moved (.abandon j error') =>
    obtain rfl : j = i := eq_of_beq hx
    have hends : (t.stride (.moved (.abandon j error'))).result? j =
        some (.error error') := by
      simp only [stride, step_abandon ho hf, result?, List.getElem?_set_self hi]
      rfl
    rw [hends] at hnone
    cases hnone

/-- The course of a store without an operation, beside strides of a store in which it is in flight:
in place of its own strides at most tickets are given out or attributes looked at, and whoever had
to wait for it may not come as far as it could. -/
inductive Omits (i : Nat) : Traffic → List Stride → Traffic → Prop where
  /-- Nothing has happened. -/
  | nil (t : Traffic) : Omits i t [] t
  /-- The operation does not go on. -/
  | own {t t' u : Traffic} {x : Stride} {w : List Stride} (own : x.isOf i = true)
      (skips : t.engine.Skips t'.engine) (operations : t'.operations = t.operations)
      (rest : Omits i t' w u) : Omits i t (x :: w) u
  /-- Something else happens. -/
  | other {t u : Traffic} {x : Stride} {w : List Stride} (other : x.isOf i = false)
      (rest : Omits i (t.stride x) w u) : Omits i t (x :: w) u
  /-- Another operation goes on, but not as far as it could. -/
  | later {t t' u : Traffic} {x : Stride} {w : List Stride} (j : Nat)
      (goes : x = .moved (.advance j) ∨ x = .moved (.pause j)) (other : x.isOf i = false)
      (lags : t.Lags t' j) (rest : Omits i t' w u) : Omits i t (x :: w) u

/-- An operation is still there after anything that leaves the store open. -/
theorem exists_stride (ho : t.operations[i]? = some o) (hx : x.staysOpen = true) :
    ∃ o', (t.stride x).operations[i]? = some o' := by
  cases x with
  | moved m =>
    rcases operations_step t m ho with hsame | ⟨-, hadvanced⟩ | ⟨-, hpaused⟩ | ⟨-, e, hfailed⟩
    · exact ⟨_, hsame⟩
    · exact ⟨_, hadvanced⟩
    · exact ⟨_, hpaused⟩
    · exact ⟨_, hfailed⟩
  | reopened config contents clock => cases hx

/-- An operation that has not ended after some strides was given up at once in a course that leads
to the store in which it is given up after them. -/
theorem omits_along (config : Config) (logged : Bool) (clock : AttributeValue)
    (strides : List Stride) {w : List Stride} (hopen : ∀ x ∈ w, x.staysOpen = true)
    (ho : ((start config logged clock).along strides).operations[i]? = some o)
    (hnone : (((start config logged clock).along strides).along w).result? i = none)
    (error : SegmentError) :
    Omits i (((start config logged clock).along strides).step (.abandon i error)) w
      ((((start config logged clock).along strides).along w).step (.abandon i error)) := by
  induction w generalizing strides o with
  | nil => exact .nil _
  | cons x w ih =>
    obtain ⟨hx, hw⟩ := List.forall_mem_cons.mp hopen
    have hrest := fun o => ih (o := o) (strides ++ [x]) hw
    rw [along_snoc] at hrest
    obtain ⟨rs, rest, left, hstands⟩ := stands_start_along config logged clock strides
    obtain ⟨hqueued, hregistered⟩ := queued_along config logged clock strides
    generalize (start config logged clock).along strides = t at *
    have houtlines := hstands.sound.engine.agrees.outlines
    have hwellFormed := hstands.sound.engine.wellFormed
    have hcourse : (t.along (x :: w)) = (t.stride x).along w := rfl
    rw [hcourse] at hnone ⊢
    have hnone₁ := result?_of_along hnone hw
    have hf := unfinished_of_result? (result?_of_along (w := x :: w) hnone hopen) ho
    obtain ⟨o₁, ho₁⟩ := exists_stride ho hx
    have hlater := hrest o₁ ho₁ hnone
    cases hown : x.isOf i with
    | true =>
      obtain ⟨hskips, hoperations⟩ :=
        own_without hqueued houtlines hwellFormed ho hown hx hnone₁ error
      exact .own hown hskips hoperations hlater
    | false =>
      rcases stride_without hqueued hregistered houtlines hwellFormed ho hf hx hown error with
        hsame | ⟨j, hgoes, hlags⟩
      · exact .other hown (hsame ▸ hlater)
      · exact .later j hgoes hown hlags hlater

/-- Who is given up as soon as it was accepted leaves only that tickets were given out. -/
theorem Registered.submit_abandon (hr : t.Registered) {request : Request} {timeout : Nat}
    (h : request.validate t.engine.config timeout = .ok ()) (error : SegmentError) :
    ∃ o, o.phase = .finished (.error error) ∧
      (t.step (.submit request timeout)).step (.abandon t.operations.length error) =
        ⟨{ t.engine with pending := { t.engine.pending with
            last := (t.step (.submit request timeout)).engine.pending.last } },
          t.operations ++ [o]⟩ := by
  have hlive : ∀ r ∈ t.engine.pending.live, r.ticket ≤ t.engine.pending.last := by
    intro r hlive
    obtain ⟨j, c, hc, -, hin⟩ := hr.owned r hlive
    exact (hr.numbered j c hc r hin).2
  refine ⟨⟨request, t.engine.pending.barrier, (t.engine.pending.registerAll request.names).2,
    .finished (.error error)⟩, rfl, ?_⟩
  have hreleased := t.engine.pending.releaseAll_registerAll hlive request.names
  rw [step_submit h, step_abandon List.getElem?_concat_length rfl]
  simp only [Phase.places, without_nil, hreleased, List.set_append_right _ _ (Nat.le_refl _),
    Nat.sub_self, List.set_cons_zero]

/-- What an operation does before it ends, and so all that one has done that was given up, changes
no segment, no name and no attribute and leaves the journal as it is. Wherever it waits when it is
given up, it leaves the lines and its registrations end. The store is then what it is at the end of
a course in which the operation was given up as soon as it was accepted, and that store differs from
one in which it never was only by the tickets that were given out. -/
theorem withdrawn_along (config : Config) (logged : Bool) (clock : AttributeValue)
    (strides : List Stride) :
    let t := (start config logged clock).along strides
    (∀ before x after i, strides = before ++ x :: after → x.isOf i = true →
      (∀ y ∈ after, y.staysOpen = true) → t.Undone i →
      let s := (start config logged clock).along before
      s.engine.Unchanged (s.stride x).engine ∧ (s.stride x).engine.log = s.engine.log) ∧
    (∀ i o error, t.operations[i]? = some o → o.phase.isFinished = false →
      t.Withdrawn i o error (t.step (.abandon i error))) ∧
    ∀ request timeout error, request.validate t.engine.config timeout = .ok () →
      let i := t.operations.length
      let issued := t.step (.submit request timeout)
      (∃ o, o.phase = .finished (.error error) ∧ issued.step (.abandon i error) =
        ⟨{ t.engine with pending := { t.engine.pending with last := issued.engine.pending.last } },
          t.operations ++ [o]⟩) ∧
      ∀ w, (∀ x ∈ w, x.staysOpen = true) → (issued.along w).result? i = none →
        Omits i (issued.step (.abandon i error)) w ((issued.along w).step (.abandon i error)) := by
  intro t
  have hinOrder : ∀ before, ((start config logged clock).along before).engine.InOrder := by
    intro before
    obtain ⟨rs, rest, left, hstands⟩ := stands_start_along config logged clock before
    obtain ⟨rs', rest', htraced⟩ := hstands.traced
    exact htraced.inOrder
  obtain ⟨hqueued, hregistered⟩ := queued_along config logged clock strides
  refine ⟨?_, fun i o error ho hf => hqueued.withdrawn (hinOrder strides) ho hf error, ?_⟩
  · intro before x after i hstrides hx hopen hundone
    have hafter : t = (((start config logged clock).along before).stride x).along after := by
      have hcourse := (start config logged clock).along_append before (x :: after)
      rwa [← hstrides] at hcourse
    rw [hafter] at hundone
    have halike := stride_undone hx (hundone.before hopen)
    exact ⟨halike.unchanged (hinOrder before), halike.log⟩
  · intro request timeout error hvalid
    refine ⟨hregistered.submit_abandon hvalid error, fun w hopen hnone => ?_⟩
    have hissued : t.step (.submit request timeout) = (start config logged clock).along
        (strides ++ [.moved (.submit request timeout)]) := by
      rw [along_snoc]
      rfl
    have hthere : (t.step (.submit request timeout)).operations[t.operations.length]? =
        some ⟨request, t.engine.pending.barrier,
          (t.engine.pending.registerAll request.names).2, .accepted⟩ := by
      rw [step_submit hvalid]
      exact List.getElem?_concat_length
    rw [hissued] at hthere hnone ⊢
    exact omits_along config logged clock _ hopen hthere hnone error

/-- A merge that has one of its turns and waits for the other, which a seal has, and an append that
waits for the merge. -/
def entangled : List Stride :=
  [.moved (.submit (.create "a" []) 1), .moved (.submit (.create "b" []) 1),
    .moved (.advance 0), .moved (.advance 1),
    .moved (.submit (.sealing "b") 1), .moved (.pause 2),
    .moved (.submit (.merge "a" "b") 1), .moved (.advance 3),
    .moved (.submit (.appendAt "a" 0 [7] []) 1), .moved (.advance 4)]

/-- When the merge is given up the append goes on, and nobody waits behind the seal. -/
example :
    let t := (start .standard false 0).along entangled
    let u := t.step (.abandon 3 (.cancelled "merge was cancelled"))
    ((t.engine.lines 1).tickets, (t.engine.lines 2).tickets) = ([1, 2], [1, 2]) ∧
      ((u.engine.lines 1).tickets, (u.engine.lines 2).tickets) = ([2], [1]) ∧
      (t.step (.advance 4)).result? 4 = none ∧
      ((u.step (.advance 4)).engine.entry 1).data = [7] := by
  decide +kernel

end Traffic

end Segments
