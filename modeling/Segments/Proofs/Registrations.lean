import Segments.Proofs.Queues
import Segments.Proofs.Renewal

/-!
# Registrations

Whoever is registered is an operation in flight, and who was accepted first has the lower tickets.
This is kept by every move. A store that is opened anew has nobody at its lines and nobody
registered, so after any history both the lines and the registrations are those of operations in
flight.
-/

namespace Segments

/-- Registering gives out tickets one after another. -/
theorem Pending.registerAll_last (p : Pending) (names : List String) :
    p.last ≤ (p.registerAll names).1.last ∧
      ∀ r ∈ (p.registerAll names).2, r.ticket ≤ (p.registerAll names).1.last := by
  induction names generalizing p with
  | nil => exact ⟨Nat.le_refl _, List.forall_mem_nil _⟩
  | cons name names ih =>
    obtain ⟨hlast, htickets⟩ := ih (p.register name).1
    refine ⟨Nat.le_of_succ_le hlast, fun r hr => ?_⟩
    rcases List.mem_cons.mp hr with rfl | hrest
    · exact hlast
    · exact htickets r hrest

/-- Releasing registrations takes no ticket back. -/
theorem Pending.releaseAll_last (p : Pending) (rs : List Registration) :
    (p.releaseAll rs).last = p.last := by
  induction rs generalizing p with
  | nil => rfl
  | cons r rs ih => exact ih (p.release r)

namespace Traffic

open Engine

/-- Whoever is registered is an operation in flight, and who was accepted first has the lower
tickets. -/
structure Registered (t : Traffic) : Prop where
  /-- The tickets of an operation are beyond its barrier and were given out. -/
  numbered : ∀ (i : Nat) (o : Operation), t.operations[i]? = some o → ∀ r ∈ o.registrations,
    o.barrier < r.ticket ∧ r.ticket ≤ t.engine.pending.last
  /-- Who was accepted first has the lower tickets. -/
  ordered : ∀ (i j : Nat) (o o' : Operation), i < j → t.operations[i]? = some o →
    t.operations[j]? = some o' → ∀ r ∈ o.registrations, r.ticket ≤ o'.barrier
  /-- An operation in flight is registered. -/
  live : ∀ (i : Nat) (o : Operation), t.operations[i]? = some o → o.phase.isFinished = false →
    ∀ r ∈ o.registrations, r ∈ t.engine.pending.live
  /-- Nothing else is. -/
  owned : ∀ r ∈ t.engine.pending.live, ∃ (i : Nat) (o : Operation),
    t.operations[i]? = some o ∧ o.phase.isFinished = false ∧ r ∈ o.registrations

variable {t : Traffic} {i : Nat} {o o' : Operation} {s : Engine}

/-- The store goes on with the same registrations. -/
theorem Registered.withEngine (h : t.Registered) (hp : s.pending = t.engine.pending) :
    (t.withEngine s).Registered := by
  refine ⟨?_, h.ordered, ?_, ?_⟩ <;> rw [Traffic.withEngine, hp]
  · exact h.numbered
  · exact h.live
  · exact h.owned

/-- No two operations share a registration. -/
theorem Registered.apart (h : t.Registered) {j : Nat} {c : Operation} (hj : j ≠ i)
    (hc : t.operations[j]? = some c) (ho : t.operations[i]? = some o) :
    ∀ r ∈ c.registrations, r ∉ o.registrations := by
  intro r hr hin
  have hmine := h.numbered i o ho r hin
  have hyours := h.numbered j c hc r hr
  rcases Nat.lt_or_gt_of_ne hj with hlt | hlt
  · have hle := h.ordered j i c o hlt hc ho r hr
    omega
  · have hle := h.ordered i j o c hlt ho hc r hin
    omega

/-- One operation ends with its registrations, or goes on with them. -/
theorem Registered.set (h : t.Registered) (ho : t.operations[i]? = some o)
    (hbarrier : o'.barrier = o.barrier) (hregistrations : o'.registrations = o.registrations)
    (hp : (o'.phase.isFinished = true ∧ s.pending = t.engine.pending.releaseAll o.registrations) ∨
      (o'.phase.isFinished = o.phase.isFinished ∧ s.pending = t.engine.pending)) :
    Registered ⟨s, t.operations.set i o'⟩ := by
  obtain ⟨hi, -⟩ := List.getElem?_eq_some_iff.mp ho
  have hlast : s.pending.last = t.engine.pending.last := by
    rcases hp with ⟨-, hp⟩ | ⟨-, hp⟩
    · rw [hp, Pending.releaseAll_last]
    · rw [hp]
  -- for all that concerns tickets the operation is the one that it was
  have hold : ∀ (j : Nat) (c : Operation), (t.operations.set i o')[j]? = some c →
      ∃ c', t.operations[j]? = some c' ∧ c.barrier = c'.barrier ∧
        c.registrations = c'.registrations := by
    intro j c hc
    rcases getElem?_set_cases hc with ⟨rfl, rfl⟩ | ⟨-, hold⟩
    · exact ⟨o, ho, hbarrier, hregistrations⟩
    · exact ⟨c, hold, rfl, rfl⟩
  refine ⟨fun j c hc r hr => ?_, fun j k c c' hjk hc hc' r hr => ?_, fun j c hc hf r hr => ?_,
    fun r hr => ?_⟩
  · obtain ⟨d, hd, hb, hrs⟩ := hold j c hc
    rw [hb, hlast]
    exact h.numbered j d hd r (hrs ▸ hr)
  · obtain ⟨d, hd, -, hrs⟩ := hold j c hc
    obtain ⟨d', hd', hb', -⟩ := hold k c' hc'
    rw [hb']
    exact h.ordered j k d d' hjk hd hd' r (hrs ▸ hr)
  · rcases getElem?_set_cases hc with ⟨rfl, rfl⟩ | ⟨hj, hc⟩
    · rcases hp with ⟨hf', -⟩ | ⟨hf', hp⟩
      · exact absurd (hf.symm.trans hf') Bool.false_ne_true
      · rw [hp]
        exact h.live j o ho (hf'.symm.trans hf) r (hregistrations ▸ hr)
    · have hlive := h.live j c hc hf r hr
      rcases hp with ⟨-, hp⟩ | ⟨-, hp⟩
      · rw [hp, Pending.releaseAll_live]
        exact List.mem_filter.mpr ⟨hlive, by simpa using h.apart hj hc ho r hr⟩
      · rwa [hp]
  · have hbefore : r ∈ t.engine.pending.live := by
      rcases hp with ⟨-, hp⟩ | ⟨-, hp⟩
      · rw [hp, Pending.releaseAll_live] at hr
        exact (List.mem_filter.mp hr).1
      · rwa [hp] at hr
    obtain ⟨j, c, hc, hf, hin⟩ := h.owned r hbefore
    by_cases hj : j = i
    · subst hj
      obtain rfl := Option.some.inj (ho.symm.trans hc)
      rcases hp with ⟨-, hp⟩ | ⟨hf', -⟩
      · rw [hp, Pending.releaseAll_live] at hr
        have hnot := (List.mem_filter.mp hr).2
        exact absurd hin (by simpa using hnot)
      · exact ⟨j, o', List.getElem?_set_self hi, hf'.trans hf, hregistrations ▸ hin⟩
    · exact ⟨j, c, (List.getElem?_set_ne (Ne.symm hj)).trans hc, hf, hin⟩

/-- An operation is accepted and registered. -/
theorem Registered.push (h : t.Registered) (request : Request) :
    Registered ⟨{ t.engine with pending := (t.engine.pending.registerAll request.names).1 },
      t.operations ++ [⟨request, t.engine.pending.barrier,
        (t.engine.pending.registerAll request.names).2, .accepted⟩]⟩ := by
  obtain ⟨hlive, hfresh⟩ := t.engine.pending.registerAll_live request.names
  obtain ⟨hlast, hnew⟩ := t.engine.pending.registerAll_last request.names
  refine ⟨fun j c hc r hr => ?_, fun j k c c' hjk hc hc' r hr => ?_, fun j c hc hf r hr => ?_,
    fun r hr => ?_⟩
  · rcases getElem?_concat_cases hc with ⟨-, hold⟩ | ⟨-, rfl⟩
    · have hin := h.numbered j c hold r hr
      exact ⟨hin.1, Nat.le_trans hin.2 hlast⟩
    · exact ⟨hfresh r hr, hnew r hr⟩
  · rcases getElem?_concat_cases hc with ⟨hj, hold⟩ | ⟨hj, rfl⟩
    · rcases getElem?_concat_cases hc' with ⟨-, hold'⟩ | ⟨-, rfl⟩
      · exact h.ordered j k c c' hjk hold hold' r hr
      · exact (h.numbered j c hold r hr).2
    · rcases getElem?_concat_cases hc' with ⟨hk, -⟩ | ⟨hk, -⟩ <;> omega
  · rw [hlive]
    rcases getElem?_concat_cases hc with ⟨-, hold⟩ | ⟨-, rfl⟩
    · exact List.mem_append_left _ (h.live j c hold hf r hr)
    · exact List.mem_append_right _ hr
  · rw [hlive] at hr
    rcases List.mem_append.mp hr with hold | hin
    · obtain ⟨j, c, hc, hf, hin⟩ := h.owned r hold
      obtain ⟨hj, -⟩ := List.getElem?_eq_some_iff.mp hc
      exact ⟨j, c, (List.getElem?_append_left hj).trans hc, hf, hin⟩
    · exact ⟨t.operations.length, _, List.getElem?_concat_length, rfl, hin⟩

/-- An operation that has ended goes on no more. -/
theorem isFinished_of_advance {s : Engine} (h : (s.advance o).2.1.phase.isFinished = false) :
    o.phase.isFinished = false := by
  cases hphase : o.phase with
  | finished result =>
    simp only [Engine.advance, Engine.advancePhase, hphase, Phase.isFinished] at h
    exact absurd h (by simp)
  | _ => rfl

/-- An operation that ends with a step ends its registrations. -/
theorem pending_advance (s : Engine) (o : Operation) :
    ((s.advance o).2.1.phase.isFinished = true ∧
      (s.advance o).1.pending = s.pending.releaseAll o.registrations) ∨
    ((s.advance o).2.1.phase.isFinished = o.phase.isFinished ∧
      (s.advance o).1.pending = s.pending) := by
  have hpending := s.advancePhase_pending o
  cases hf : (s.advance o).2.1.phase.isFinished with
  | true =>
    refine Or.inl ⟨rfl, ?_⟩
    have hf' : (s.advancePhase o).2.1.isFinished = true := hf
    simp only [Engine.advance, Engine.settle, hf', ↓reduceIte, hpending]
  | false =>
    refine Or.inr ⟨(isFinished_of_advance hf).symm, ?_⟩
    have hf' : (s.advancePhase o).2.1.isFinished = false := hf
    simp only [Engine.advance, Engine.settle, hf', Bool.false_eq_true, ↓reduceIte, hpending]

/-- Writing values through changes no registration. -/
theorem pending_writeThrough (s : Engine) (id : SegmentId) :
    (s.writeThrough id).1.pending = s.pending := by
  unfold Engine.writeThrough
  split <;> rfl

/-- Nor does writing those of several segments. -/
theorem pending_writeAllThrough (s : Engine) (ids : List SegmentId) :
    (s.writeAllThrough ids).1.pending = s.pending := by
  induction ids generalizing s with
  | nil => rfl
  | cons id ids ih => exact (ih _).trans (pending_writeThrough s id)

/-- An eviction changes no registration. -/
theorem pending_evict (s : Engine) (name : String) : (s.evict name).1.pending = s.pending := by
  unfold Engine.evict
  cases s.resolve name <;> rfl

/-- A shutdown changes no registration. -/
theorem pending_shutdown (s : Engine) : s.shutdown.1.pending = s.pending := by
  cases hc : s.closed with
  | true => simp only [Engine.shutdown, hc, ↓reduceIte]
  | false =>
    rw [shutdown_fst s hc]
    exact pending_writeAllThrough _ _

/-- Coming to a turn changes no registration. -/
theorem comeTo_pending (s : Engine) (action : Action) (held : List Place) (otherwise : Phase)
    (wanted : List SegmentId) : (s.comeTo action held otherwise wanted).1.pending = s.pending := by
  cases wanted <;> rfl

/-- So it is in whatever phase an operation is. -/
theorem comeToTurn_pending (s : Engine) (o : Operation) :
    (s.comeToTurn o).1.pending = s.pending := by
  unfold Engine.comeToTurn
  split
  · split
    · exact comeTo_pending s _ _ _ _
    · rfl
  · simp only
    split
    · exact (comeTo_pending _ _ _ _ _).trans rfl
    · rfl
  · rfl

/-- An operation that comes to its turn is as finished as it was. -/
theorem comeToTurn_isFinished (s : Engine) (o : Operation) :
    (s.comeToTurn o).2.isFinished = o.phase.isFinished := by
  rcases s.comeToTurn_cases o with hsame | ⟨_, _, _, _, hline, ⟨hphase, -⟩ | ⟨_, _, hphase⟩⟩
  · rw [hsame]
  · rw [hline, hphase]
    rfl
  · rw [hline, hphase]
    rfl

/-- An operation that goes no further than to its next turn keeps the registrations. -/
theorem Registered.pause (h : t.Registered) (i : Nat) : (t.pause i).Registered := by
  unfold Traffic.pause
  split
  · exact h
  · next o ho =>
    exact h.set ho rfl rfl
      (Or.inr ⟨comeToTurn_isFinished t.engine o, comeToTurn_pending t.engine o⟩)

/-- Every move keeps the registrations. -/
theorem Registered.step (h : t.Registered) (m : Move) : (t.step m).Registered := by
  cases m with
  | submit request timeout =>
    cases hvalid : request.validate t.engine.config timeout with
    | error e =>
      simp only [Traffic.step, Engine.accept, hvalid]
      exact h
    | ok u =>
      simp only [Traffic.step, accept_of_validate hvalid]
      exact h.push request
  | advance i =>
    cases ho : t.operations[i]? with
    | none =>
      simp only [Traffic.step, ho]
      exact h
    | some o =>
      simp only [Traffic.step, ho]
      exact h.set ho rfl rfl (pending_advance t.engine o)
  | pause i => exact h.pause i
  | abandon i error =>
    cases ho : t.operations[i]? with
    | none =>
      simp only [Traffic.step, ho]
      exact h
    | some o =>
      simp only [Traffic.step, ho]
      split
      · exact h
      · exact h.set ho rfl rfl (Or.inl ⟨rfl,
          congrArg (·.releaseAll o.registrations) (leaveAll_pending t.engine o.phase.places)⟩)
  | evict name => exact h.withEngine (pending_evict _ name)
  | writeThrough segment => exact h.withEngine (pending_writeThrough _ segment)
  | shutdown => exact h.withEngine (pending_shutdown _)
  | _ => exact h.withEngine rfl

end Traffic

namespace Engine

/-- At the lines of a store that was just opened nobody stands, and nothing is registered. -/
theorem lines_of_openStore {s : Engine} {c : Contents} {config : Config} {clock : AttributeValue}
    (hs : (c.openStore config clock).2.2 = .ok s) :
    s.lines = (fun _ => .empty) ∧ s.pending = .empty := by
  simp only [Contents.openStore] at hs
  split at hs
  · cases hs
  · obtain ⟨r, hr, rfl⟩ := eq_ofReplayed_of_openStore hs
    have hunclaimed : r.Unclaimed := Replayed.Unclaimed.steps (fun id e he => by cases he) hr
    refine ⟨funext fun id => ?_, rfl⟩
    unfold lines entry
    rw [get?_ofReplayed]
    cases he : r.entries.get? id with
    | none => rfl
    | some e => exact hunclaimed id e he

end Engine

namespace Traffic

open Engine

variable {t : Traffic}

/-- In a store with empty lines and no operations nobody is misplaced. -/
theorem queued_of_lines {s : Engine} (h : s.lines = fun _ => .empty) : Queued ⟨s, []⟩ where
  formed id := by
    rw [h]
    exact TurnLine.wellFormed_empty
  placed i o ho := by cases ho
  merges i o ho := by cases ho
  apart i j o o' _ ho := by cases ho
  owned p hp := by
    rw [h] at hp
    cases hp

/-- In a store without registrations and operations nobody is misregistered. -/
theorem registered_of_pending {s : Engine} (h : s.pending = .empty) : Registered ⟨s, []⟩ where
  numbered i o ho := by cases ho
  ordered i j o o' _ ho := by cases ho
  live i o ho := by cases ho
  owned r hr := by
    rw [h] at hr
    cases hr

/-- A new store has its queues. -/
theorem queued_start (config : Config) (logged : Bool) (clock : AttributeValue) :
    (start config logged clock).Queued := queued_of_lines rfl

/-- A new store has its registrations. -/
theorem registered_start (config : Config) (logged : Bool) (clock : AttributeValue) :
    (start config logged clock).Registered := registered_of_pending rfl

/-- After any history the queues and the registrations are those of operations in flight. -/
theorem queued_along (config : Config) (logged : Bool) (clock : AttributeValue)
    (strides : List Stride) : ((start config logged clock).along strides).Queued ∧
      ((start config logged clock).along strides).Registered := by
  induction strides using List.reverseRecOn with
  | nil => exact ⟨queued_start config logged clock, registered_start config logged clock⟩
  | append_singleton strides x ih =>
    rw [along_snoc]
    obtain ⟨rs, rest, left, hstands⟩ := stands_start_along config logged clock strides
    cases x with
    | moved m => exact ⟨ih.1.step hstands.sound m, ih.2.step m⟩
    | reopened config' contents clock' =>
      simp only [stride]
      split
      · next s hs =>
        obtain ⟨hlines, hpending⟩ := lines_of_openStore hs
        exact ⟨queued_of_lines hlines, registered_of_pending hpending⟩
      · exact ih

end Traffic

end Segments
