import Segments.Proofs.Lobby
import Segments.Proofs.Registrations

/-!
# Descriptions behind a barrier

A segment can be described after all operations on its name that were accepted before. Such a
description is made exactly when they have ended: the registrations of an operation are those of the
names that it concerns, and the barrier lies between those of the earlier operations and its own.
-/

namespace Segments

/-- An operation is registered under the names that it concerns. -/
theorem Pending.registerAll_names (p : Pending) (names : List String) :
    (p.registerAll names).2.map Registration.name = names := by
  induction names generalizing p with
  | nil => rfl
  | cons name names ih => exact congrArg (name :: ·) (ih (p.register name).1)

/-- What is true of every operation from its acceptance on: it is registered under the names that it
concerns, and a description has only one step. -/
structure Operation.Enrolled (o : Operation) : Prop where
  /-- It is registered under the names that it concerns. -/
  names : o.registrations.map Registration.name = o.request.names
  /-- A description is made at once or waits. -/
  describes : ∀ name wait, o.request = .info name wait →
    o.phase = .accepted ∨ o.phase.isFinished = true

namespace Engine

variable {s : Engine} {o : Operation} {name : String} {wait : Bool}

/-- A description is made, or waits if it is to wait for earlier operations and some are left. -/
theorem advancePhase_info (s : Engine) (hrequest : o.request = .info name wait)
    (hphase : o.phase = .accepted) : (s.advancePhase o).2.1 =
      if wait = true ∧ s.pending.isClear name o.barrier = false then .accepted
      else .finished ((s.properties name).map .properties) := by
  simp only [advancePhase, hphase, begin, hrequest, describe, Bool.not_eq_true']
  split <;> rfl

/-- A description comes to no line. -/
theorem comeToTurn_info (s : Engine) (hrequest : o.request = .info name wait)
    (hphase : o.phase = .accepted) : (s.comeToTurn o).2 = .accepted := by
  simp only [comeToTurn, hphase, hrequest, Request.action?]
  split
  · next hnone => cases hnone
  · rfl

end Engine

namespace Operation.Enrolled

variable {o : Operation}

/-- An operation goes on. -/
theorem withPhase (h : o.Enrolled) {phase : Phase}
    (hphase : ∀ name wait, o.request = .info name wait →
      phase = .accepted ∨ phase.isFinished = true) : Enrolled { o with phase } :=
  ⟨h.names, hphase⟩

theorem advance (h : o.Enrolled) (s : Engine) : (s.advance o).2.1.Enrolled := by
  have hdescribes : ∀ name wait, o.request = .info name wait →
      (s.advancePhase o).2.1 = .accepted ∨ (s.advancePhase o).2.1.isFinished = true := by
    intro name wait hrequest
    rcases h.describes name wait hrequest with hphase | hfinished
    · rw [s.advancePhase_info hrequest hphase]
      split
      · exact Or.inl rfl
      · exact Or.inr rfl
    · cases hphase : o.phase with
      | finished result =>
        simp only [Engine.advancePhase, hphase]
        exact Or.inr rfl
      | _ =>
        rw [hphase] at hfinished
        cases hfinished
  exact h.withPhase hdescribes

theorem comeToTurn (h : o.Enrolled) (s : Engine) :
    Enrolled { o with phase := (s.comeToTurn o).2 } := by
  refine h.withPhase fun name wait hrequest => ?_
  rcases h.describes name wait hrequest with hphase | hfinished
  · exact Or.inl (s.comeToTurn_info hrequest hphase)
  · exact Or.inr ((Traffic.comeToTurn_isFinished s o).trans hfinished)

end Operation.Enrolled

namespace Traffic

open Engine

variable {t : Traffic} {i : Nat} {o o' : Operation} {name : String}

/-- Every stride keeps operations enrolled. -/
theorem enrolled_stride (h : ∀ o ∈ t.operations, o.Enrolled) (x : Stride) :
    ∀ o ∈ (t.stride x).operations, o.Enrolled := by
  have hset : ∀ {i : Nat} {o' : Operation}, o'.Enrolled →
      ∀ c ∈ t.operations.set i o', c.Enrolled := by
    intro i o' ho' c hc
    rcases List.mem_or_eq_of_mem_set hc with hold | rfl
    · exact h c hold
    · exact ho'
  cases x with
  | reopened config contents clock =>
    simp only [stride]
    split
    · exact List.forall_mem_nil _
    · exact h
  | moved m =>
    cases m with
    | submit request timeout =>
      simp only [stride, step]
      cases hvalid : request.validate t.engine.config timeout with
      | error e =>
        simp only [Engine.accept, hvalid]
        exact h
      | ok u =>
        rw [accept_of_validate hvalid]
        refine List.forall_mem_append.mpr ⟨h, List.forall_mem_singleton.mpr ?_⟩
        exact ⟨Pending.registerAll_names _ _, fun _ _ _ => Or.inl rfl⟩
    | advance i =>
      simp only [stride, step]
      split
      · exact h
      · next o ho => exact hset ((h o (List.mem_of_getElem? ho)).advance t.engine)
    | pause i =>
      simp only [stride, step, pause]
      split
      · exact h
      · next o ho => exact hset ((h o (List.mem_of_getElem? ho)).comeToTurn t.engine)
    | abandon i error =>
      simp only [stride, step]
      split
      · exact h
      · next o ho =>
        split
        · exact h
        · exact hset ((h o (List.mem_of_getElem? ho)).withPhase fun _ _ _ => Or.inr rfl)
    | _ => exact h

theorem enrolled_along (config : Config) (logged : Bool) (clock : AttributeValue)
    (strides : List Stride) :
    ∀ o ∈ ((start config logged clock).along strides).operations, o.Enrolled := by
  induction strides using List.reverseRecOn with
  | nil => exact List.forall_mem_nil _
  | append_singleton strides x ih =>
    rw [along_snoc]
    exact enrolled_stride ih x

/-- All operations that concern a name and were accepted before one of them have ended. -/
def EarlierEnded (t : Traffic) (i : Nat) (name : String) : Prop :=
  ∀ (j : Nat) (o : Operation), j < i → t.operations[j]? = some o → name ∈ o.request.names →
    o.phase.isFinished = true

/-- The registrations are clear of the barrier of an operation on a name exactly when all earlier
operations on that name have ended. -/
theorem isClear_iff (hr : t.Registered) (he : ∀ o ∈ t.operations, o.Enrolled)
    (ho : t.operations[i]? = some o) (hname : name ∈ o.request.names) :
    t.engine.pending.isClear name o.barrier = true ↔ t.EarlierEnded i name := by
  have hown := (he o (List.mem_of_getElem? ho)).names
  rw [Pending.isClear, List.all_eq_true]
  constructor
  · intro hall j c hj hc hin
    by_contra hf
    rw [Bool.not_eq_true] at hf
    rw [← (he c (List.mem_of_getElem? hc)).names] at hin
    obtain ⟨r, hregistered, hnamed⟩ := List.mem_map.mp hin
    have hbehind := hall r (hr.live j c hc hf r hregistered)
    have hbefore := hr.ordered j i c o hj hc ho r hregistered
    simp only [hnamed, bne_self_eq_false, Bool.false_or, decide_eq_true_eq] at hbehind
    omega
  · intro hended r hlive
    rw [Bool.or_eq_true, bne_iff_ne, decide_eq_true_eq, or_iff_not_imp_left, not_not]
    intro hnamed
    obtain ⟨j, c, hc, hf, hregistered⟩ := hr.owned r hlive
    have hconcerns : name ∈ c.request.names := by
      rw [← (he c (List.mem_of_getElem? hc)).names]
      exact List.mem_map.mpr ⟨r, hregistered, hnamed⟩
    rcases Nat.lt_or_ge j i with hj | hj
    · rw [hended j c hj hc hconcerns] at hf
      cases hf
    · rcases Nat.eq_or_lt_of_le hj with rfl | hlater
      · obtain rfl := Option.some.inj (ho.symm.trans hc)
        exact (hr.numbered i o ho r hregistered).1
      · -- the barrier of the one lies before its own ticket, and that before the other's barrier
        rw [← hown] at hname
        obtain ⟨r', hregistered', -⟩ := List.mem_map.mp hname
        have hmine := (hr.numbered i o ho r' hregistered').1
        have hnext := hr.ordered i j o c hlater ho hc r' hregistered'
        have hyours := (hr.numbered j c hc r hregistered).1
        omega

/-- A description that waits for earlier operations is made behind them. -/
structure DescribesBehind (t : Traffic) : Prop where
  /-- It ends only when it is given up, or when all earlier operations on its name have ended, and
  then says what the segment is. -/
  behind : ∀ (x : Stride) (i : Nat) (o o' : Operation) (name : String),
    t.operations[i]? = some o → o.request = .info name true → o.phase.isFinished = false →
      (t.stride x).operations[i]? = some o' → o'.phase.isFinished = true →
        (∃ e, x = .moved (.abandon i e)) ∨ (t.EarlierEnded i name ∧
          o'.phase = .finished ((t.engine.properties name).map .properties))
  /-- When all earlier operations on its name have ended, it ends with its next step. -/
  goes : ∀ (i : Nat) (o : Operation) (name : String),
    t.operations[i]? = some o → o.request = .info name true → o.phase.isFinished = false →
      t.EarlierEnded i name → ∃ o', (t.step (.advance i)).operations[i]? = some o' ∧
        o'.phase = .finished ((t.engine.properties name).map .properties)

/-- What a stride does to an operation that it does not give up. -/
theorem operations_stride_of_ne (t : Traffic) (x : Stride) (ho : t.operations[i]? = some o)
    (hx : ∀ e, x ≠ .moved (.abandon i e)) (ho' : (t.stride x).operations[i]? = some o') :
    o' = o ∨ o' = { o with phase := (t.engine.comeToTurn o).2 } ∨
      o' = (t.engine.advance o).2.1 := by
  cases x with
  | reopened config contents clock =>
    simp only [stride] at ho'
    split at ho'
    · cases ho'
    · exact Or.inl (Option.some.inj (ho'.symm.trans ho))
  | moved m =>
    rcases t.operations_step_of_ne m ho fun e he => hx e (he ▸ rfl) with
      hsame | ⟨-, hadvanced⟩ | ⟨-, hpaused⟩
    · exact Or.inl (Option.some.inj (ho'.symm.trans hsame))
    · exact Or.inr (Or.inr (Option.some.inj (ho'.symm.trans hadvanced)))
    · exact Or.inr (Or.inl (Option.some.inj (ho'.symm.trans hpaused)))

theorem describesBehind_of_registered (hr : t.Registered) (he : ∀ o ∈ t.operations, o.Enrolled) :
    t.DescribesBehind where
  behind x i o o' name ho hrequest hf ho' hf' := by
    by_cases hx : ∃ e, x = .moved (.abandon i e)
    · exact Or.inl hx
    · refine Or.inr ?_
      have hphase : o.phase = .accepted := by
        refine ((he o (List.mem_of_getElem? ho)).describes name true hrequest).resolve_right ?_
        simp [hf]
      have hname : name ∈ o.request.names := by
        rw [hrequest]
        exact List.mem_singleton_self name
      rcases t.operations_stride_of_ne x ho (fun e hxe => hx ⟨e, hxe⟩) ho' with
        rfl | rfl | rfl
      · rw [hf] at hf'
        cases hf'
      · rw [comeToTurn_isFinished, hf] at hf'
        cases hf'
      · have hadvanced := t.engine.advancePhase_info hrequest hphase
        have hlook : (t.engine.advance o).2.1.phase = (t.engine.advancePhase o).2.1 := rfl
        rw [hlook, hadvanced] at hf' ⊢
        split at hf'
        · cases hf'
        · next hclear =>
          rw [if_neg hclear]
          refine ⟨(isClear_iff hr he ho hname).mp ?_, rfl⟩
          simpa using hclear
  goes i o name ho hrequest hf hended := by
    obtain ⟨hi, -⟩ := List.getElem?_eq_some_iff.mp ho
    have hphase : o.phase = .accepted := by
      refine ((he o (List.mem_of_getElem? ho)).describes name true hrequest).resolve_right ?_
      simp [hf]
    have hname : name ∈ o.request.names := by
      rw [hrequest]
      exact List.mem_singleton_self name
    have hclear := (isClear_iff hr he ho hname).mpr hended
    refine ⟨(t.engine.advance o).2.1, ?_, ?_⟩
    · simp only [step, ho]
      exact List.getElem?_set_self hi
    · exact (t.engine.advancePhase_info hrequest hphase).trans (if_neg (by simp [hclear]))

end Traffic

/-- However operations are registered and end, and others wait for them: tickets rise with the
registrations, as many operations are counted as are in flight, and whoever waits goes on exactly
when no operation on its name is left up to its barrier. So a description that waits for earlier
operations on its segment, of a store after any strides, is made exactly when they have all ended,
those of a merge among them, and waits neither for a later one nor for itself. -/
theorem separates_and_describesBehind (moves : List LobbyMove) (config : Config) (logged : Bool)
    (clock : AttributeValue) (strides : List Stride) :
    Lobby.Separates moves ∧
      ((Traffic.start config logged clock).along strides).DescribesBehind :=
  ⟨Lobby.separates moves, Traffic.describesBehind_of_registered
    (Traffic.queued_along config logged clock strides).2
    (Traffic.enrolled_along config logged clock strides)⟩

end Segments
