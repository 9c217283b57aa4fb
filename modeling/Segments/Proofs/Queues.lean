import Segments.Proofs.Places

/-!
# Queues

Whoever stands at a line is an operation in flight, at one of its places, and no two operations
share a place. What one step of an operation does to the lines, `Engine.Queues`, leaves all others
where they stand, so every stride keeps the queues. With nothing in between it is all the same
whether an operation goes on at once or stops at its next turn first, `Queued.step_pause`.
-/

namespace Segments

section

variable {α : Type} {l : List α} {i j : Nat} {a c : α}

/-- What is in a list after one element was replaced. -/
theorem getElem?_set_cases (h : (l.set i a)[j]? = some c) :
    (j = i ∧ c = a) ∨ (j ≠ i ∧ l[j]? = some c) := by
  by_cases hj : j = i
  · subst hj
    obtain ⟨hlt, -⟩ := List.getElem?_eq_some_iff.mp h
    rw [List.getElem?_set_self (by simpa using hlt)] at h
    exact Or.inl ⟨rfl, (Option.some.inj h).symm⟩
  · rw [List.getElem?_set_ne (Ne.symm hj)] at h
    exact Or.inr ⟨hj, h⟩

theorem set_of_getElem? (h : l[i]? = some a) : l.set i a = l := by
  obtain ⟨hi, rfl⟩ := List.getElem?_eq_some_iff.mp h
  exact List.set_getElem_self hi

/-- Where one of several things becomes another, what is read off them changes in its part only. -/
theorem exists_filterMap_set {β : Type} (h : l[i]? = some a) (f : α → Option β) (c : α) :
    ∃ rest, (l.filterMap f).Perm ((f a).toList ++ rest) ∧
      ((l.set i c).filterMap f).Perm ((f c).toList ++ rest) := by
  obtain ⟨hi, ha⟩ := List.getElem?_eq_some_iff.mp h
  have hpart : ∀ z, ((l.take i ++ z :: l.drop (i + 1)).filterMap f).Perm
      ((f z).toList ++ (l.take i ++ l.drop (i + 1)).filterMap f) := by
    intro z
    have hcons : (z :: l.drop (i + 1)).filterMap f =
        (f z).toList ++ (l.drop (i + 1)).filterMap f := by
      rw [List.filterMap_cons]
      cases f z <;> rfl
    rw [List.filterMap_append, List.filterMap_append, hcons]
    exact List.perm_append_comm_assoc _ _ _
  refine ⟨(l.take i ++ l.drop (i + 1)).filterMap f, ?_, ?_⟩
  · have hl := hpart a
    rwa [← ha, ← List.drop_eq_getElem_cons hi, List.take_append_drop, ha] at hl
  · rw [List.set_eq_take_append_cons_drop, if_pos hi]
    exact hpart c

/-- What is in a list after one element was added. -/
theorem getElem?_concat_cases (h : (l ++ [a])[j]? = some c) :
    (j < l.length ∧ l[j]? = some c) ∨ (j = l.length ∧ c = a) := by
  rcases Nat.lt_or_ge j l.length with hj | hj
  · rw [List.getElem?_append_left hj] at h
    exact Or.inl ⟨hj, h⟩
  · obtain ⟨hlt, -⟩ := List.getElem?_eq_some_iff.mp h
    rw [List.length_append, List.length_singleton] at hlt
    rw [List.getElem?_append_right hj] at h
    exact Or.inr ⟨by omega, List.mem_singleton.mp (List.mem_of_getElem? h)⟩

end

namespace Engine

variable {s s' : Engine} {a : Account} {own : List Place}

/-- Who stands somewhere with some turns stands at the lines of all its places. -/
theorem Stands.mem_tickets {held : List Place} {place : Place} {wanted : List SegmentId}
    (h : s.Stands held place wanted) {p : Place} (hp : p ∈ place :: held) :
    p.ticket ∈ (s.lines p.segment).tickets := by
  rcases List.mem_cons.mp hp with rfl | hheld
  · exact h.inLine
  · have hturn := h.turns p hheld
    rw [hasTurn_eq] at hturn
    exact TurnLine.mem_tickets_of_holds hturn

end Engine

open Engine in
theorem Phase.Placed.mem_tickets {s : Engine} {phase : Phase} (h : phase.Placed s) {p : Place}
    (hp : p ∈ phase.places) : p.ticket ∈ (s.lines p.segment).tickets := by
  cases phase with
  | inLine action held place wanted => exact Stands.mem_tickets h hp
  | _ => cases hp

namespace Engine

variable {s s' : Engine} {a : Account} {own : List Place} {phase : Phase}

namespace Queues

theorem spares (h : Queues s own s' phase) : s.Spares s' own := by
  cases h with
  | stays arrived unfinished places joins placed => exact joins.spares
  | ends result clears => exact clears.spares

/-- The new places have tickets that were not given out before. -/
theorem fresh (h : Queues s own s' phase) {p : Place} (hp : p ∈ phase.places) :
    p ∈ own ∨ (s.lines p.segment).issued < p.ticket := by
  cases h with
  | stays arrived unfinished places joins placed =>
    rw [places] at hp
    exact (List.mem_append.mp hp).symm.imp_right (joins.fresh p)
  | ends result clears => cases hp

/-- Others stand where they stood. -/
theorem kept (h : Queues s own s' phase) {p : Place}
    (hp : p.ticket ∈ (s.lines p.segment).tickets) (hown : p ∉ own) :
    p.ticket ∈ (s'.lines p.segment).tickets := by
  cases h with
  | stays arrived unfinished places joins placed =>
    rw [joins.tickets]
    exact List.mem_append_left _ hp
  | ends result clears =>
    rw [clears.tickets]
    exact List.mem_filter.mpr ⟨hp, by simpa using hown⟩

/-- Whoever stands at a line afterwards is the operation itself, or has stood there before. -/
theorem known (h : Queues s own s' phase) {p : Place}
    (hp : p.ticket ∈ (s'.lines p.segment).tickets) :
    (p.ticket ∈ (s.lines p.segment).tickets ∧ p ∉ own) ∨ p ∈ phase.places := by
  cases h with
  | stays arrived unfinished places joins placed =>
    rw [joins.tickets, List.mem_append, mem_ticketsAt] at hp
    rw [places, List.mem_append]
    by_cases hown : p ∈ own
    · exact Or.inr (Or.inr hown)
    · exact hp.imp (fun hold => ⟨hold, hown⟩) Or.inl
  | ends result clears =>
    rw [clears.tickets, List.mem_filter] at hp
    exact Or.inl ⟨hp.1, by simpa using hp.2⟩

theorem placed (h : Queues s own s' phase) : phase.Placed s' := by
  cases h with
  | stays arrived unfinished places joins placed => exact placed
  | ends result clears => exact trivial

theorem of_lines_eq {s'' : Engine} (h : Queues s own s' phase) (hl : s''.lines = s'.lines)
    (hthere : ∀ id e, s'.entries.get? id = some e → ∃ e', s''.entries.get? id = some e') :
    Queues s own s'' phase := by
  cases h with
  | ends result clears => exact .ends result (clears.of_lines_eq hl)
  | stays arrived unfinished places joins placed =>
    refine .stays arrived unfinished places (joins.of_lines_eq hl) ?_
    cases phase with
    | inLine action held place wanted =>
      obtain ⟨turns, inLine, order, there⟩ := placed
      refine ⟨fun p hp => ?_, by rwa [hl], order, fun id hid => ?_⟩
      · rw [hasTurn_eq, hl]
        exact turns p hp
      · obtain ⟨e, he⟩ := there id hid
        exact hthere id e he
    | _ => exact trivial

end Queues

/-- No turn is offered to somebody who has yet to come. -/
theorem LinesFormed.foreseen (hw : s.LinesFormed) : s.Foreseen := by
  intro id hturn
  have hle := (hw id).issued ((s.lines id).issued + 1) (by
    rw [TurnLine.tickets, lines, hturn]
    exact List.mem_cons_self)
  exact Nat.not_succ_le_self _ hle

/-- Whoever has been given the chance to take up a turn has taken it up. -/
theorem modifyTurns_takeUp_twice (s : Engine) (p : Place) :
    ((s.modifyTurns p.segment fun l => l.takeUp p.ticket).modifyTurns p.segment
      fun l => l.takeUp p.ticket) = s.modifyTurns p.segment fun l => l.takeUp p.ticket := by
  refine modifyTurns_takeUp _ p ?_
  have hl := lines_modifyTurns_of_empty s p.segment (f := fun l => l.takeUp p.ticket)
    (by simp [TurnLine.takeUp, TurnLine.empty]) p.segment
  rw [if_pos rfl] at hl
  intro hturn
  have htaken : ((s.lines p.segment).takeUp p.ticket).turn = .offered p.ticket :=
    (congrArg TurnLine.turn hl).symm.trans hturn
  unfold TurnLine.takeUp at htaken
  split at htaken
  · cases htaken
  · next hnot => exact hnot htaken

/-- A step of an operation is the same from its next turn. -/
theorem advancePhase_comeToTurn (h : s.Outlines a) (ha : a.WellFormed) (hw : s.LinesFormed)
    {o : Operation} (ho : o.phase.Placed s)
    (hne : ∀ target source, o.request = .merge target source → target ≠ source) :
    (s.comeToTurn o).1.advancePhase { o with phase := (s.comeToTurn o).2 } = s.advancePhase o := by
  obtain ⟨request, barrier, registrations, phase⟩ := o
  cases phase with
  | accepted =>
    cases hc : s.closed with
    | true => simp only [comeToTurn, requireOpen_eq, hc, ↓reduceIte]
    | false =>
      have hopen := requireOpen_of_open hc
      cases haction : request.action? s with
      | none => simp only [comeToTurn, hopen, haction]
      | some action =>
        obtain ⟨-, hthere⟩ := h.turns_of_action? ha haction hne
        simp only [comeToTurn, hopen, haction]
        cases hturns : action.turns with
        | nil => rfl
        | cons id wanted =>
          rw [hturns] at hthere
          refine (advancePhase_comeTo hw.foreseen (hthere id List.mem_cons_self)
            ⟨request, barrier, registrations, .accepted⟩).trans ?_
          rw [advancePhase, begin_of_action hc haction, hturns]
  | inLine action held place wanted =>
    obtain ⟨hjoins, hstands⟩ := Stands.takeUp hw ho
    have htwice := s.modifyTurns_takeUp_twice place
    by_cases hturn : (s.modifyTurns place.segment fun l =>
        l.takeUp place.ticket).hasTurn place = true
    · cases wanted with
      | nil => simp only [comeToTurn, comeTo, advancePhase, hturn, htwice, ↓reduceIte]
      | cons id wanted =>
        simp only [comeToTurn, hturn, ↓reduceIte]
        refine (advancePhase_comeTo hjoins.spares.formed.foreseen
          (hstands.there id List.mem_cons_self)
          ⟨request, barrier, registrations, .accepted⟩).trans ?_
        simp only [advancePhase, hturn, ↓reduceIte]
    · simp only [comeToTurn, advancePhase, hturn, htwice, Bool.false_eq_true, ↓reduceIte]
  | fetching id lookup cache => rfl
  | fetched id lookup cache values => rfl
  | finished result => rfl

/-- Others stand as they stood when an operation takes a step. -/
theorem Stands.queues {held : List Place} {place : Place} {wanted : List SegmentId}
    (h : s.Stands held place wanted) (hw : s.LinesFormed) (hq : Queues s own s' phase)
    (hapart : ∀ p ∈ place :: held, p ∉ own)
    (hthere : ∀ id e, s.entries.get? id = some e → ∃ e', s'.entries.get? id = some e') :
    s'.Stands held place wanted := by
  have hturn : ∀ p ∈ place :: held, s'.hasTurn p = s.hasTurn p := fun p hp =>
    hq.spares.holds p ((hw _).issued _ (h.mem_tickets hp)) (hapart p hp)
  refine ⟨fun p hp => ?_, hq.kept h.inLine (hapart place List.mem_cons_self), h.order,
    fun id hid => ?_⟩
  · rw [hturn p (List.mem_cons_of_mem _ hp)]
    exact h.turns p hp
  · obtain ⟨e, he⟩ := h.there id hid
    exact hthere id e he

end Engine

namespace Traffic

open Engine

/-- Whoever stands at a line is an operation in flight, and no two share a place. -/
structure Queued (t : Traffic) : Prop where
  /-- The lines are well-formed. -/
  formed : t.engine.LinesFormed
  /-- Operations stand as they should. -/
  placed : ∀ (i : Nat) (o : Operation), t.operations[i]? = some o → o.phase.Placed t.engine
  /-- A merge is asked for of two segments. -/
  merges : ∀ (i : Nat) (o : Operation), t.operations[i]? = some o →
    ∀ target source, o.request = .merge target source → target ≠ source
  /-- No two operations share a place. -/
  apart : ∀ (i j : Nat) (o o' : Operation), i ≠ j → t.operations[i]? = some o →
    t.operations[j]? = some o' → ∀ p ∈ o.phase.places, p ∉ o'.phase.places
  /-- Every place in line is one of an operation. -/
  owned : ∀ p : Place, p.ticket ∈ (t.engine.lines p.segment).tickets →
    ∃ (i : Nat) (o : Operation), t.operations[i]? = some o ∧ p ∈ o.phase.places

variable {t : Traffic} {i : Nat} {o o' : Operation} {s : Engine}

/-- The store goes on without a change of its lines. -/
theorem Queued.withEngine (h : t.Queued) (hl : s.lines = t.engine.lines)
    (hthere : ∀ id e, t.engine.entries.get? id = some e → ∃ e', s.entries.get? id = some e') :
    (t.withEngine s).Queued where
  formed id := by
    rw [Traffic.withEngine, hl]
    exact h.formed id
  placed j c hc := by
    have hq : Engine.Queues t.engine [] s .accepted := queues_of_lines h.formed rfl hl
    have hplaced := h.placed j c hc
    cases hphase : c.phase with
    | inLine action held place wanted =>
      rw [hphase] at hplaced
      exact Stands.queues hplaced h.formed hq (fun p _ => List.not_mem_nil) hthere
    | _ => exact trivial
  merges := h.merges
  apart := h.apart
  owned p hp := by
    rw [Traffic.withEngine, hl] at hp
    exact h.owned p hp

/-- One operation takes a step. -/
theorem Queued.set (h : t.Queued) (ho : t.operations[i]? = some o)
    (hq : Engine.Queues t.engine o.phase.places s o'.phase) (hrequest : o'.request = o.request)
    (hthere : ∀ id e, t.engine.entries.get? id = some e → ∃ e', s.entries.get? id = some e') :
    Queued ⟨s, t.operations.set i o'⟩ := by
  obtain ⟨hi, -⟩ := List.getElem?_eq_some_iff.mp ho
  -- the places that it has now are not those of others
  have hapart : ∀ j c, j ≠ i → t.operations[j]? = some c → ∀ p ∈ o'.phase.places,
      p ∉ c.phase.places := by
    intro j c hj hc p hp hin
    rcases hq.fresh hp with hown | hfresh
    · exact h.apart i j o c hj.symm ho hc p hown hin
    · have hle := (h.formed _).issued _ ((h.placed j c hc).mem_tickets hin)
      exact Nat.not_lt.mpr hle hfresh
  refine ⟨hq.spares.formed, fun j c hc => ?_, fun j c hc => ?_, fun j k c c' hjk hc hc' => ?_,
    fun p hp => ?_⟩
  · rcases getElem?_set_cases hc with ⟨-, rfl⟩ | ⟨hj, hold⟩
    · exact hq.placed
    · have hplaced := h.placed j c hold
      have hdisjoint := h.apart j i c o hj hold ho
      cases hphase : c.phase with
      | inLine action held place wanted =>
        rw [hphase] at hplaced hdisjoint
        exact Stands.queues hplaced h.formed hq hdisjoint hthere
      | _ => exact trivial
  · rcases getElem?_set_cases hc with ⟨-, rfl⟩ | ⟨-, hold⟩
    · rw [hrequest]
      exact h.merges i o ho
    · exact h.merges j c hold
  · rcases getElem?_set_cases hc with ⟨hj, rfl⟩ | ⟨hj, hold⟩
    · rcases getElem?_set_cases hc' with ⟨hk, -⟩ | ⟨hk, hold'⟩
      · exact absurd (hj.trans hk.symm) hjk
      · exact hapart k c' hk hold'
    · rcases getElem?_set_cases hc' with ⟨-, rfl⟩ | ⟨-, hold'⟩
      · exact fun p hp hin => hapart j c hj hold p hin hp
      · exact h.apart j k c c' hjk hold hold'
  · rcases hq.known hp with ⟨hold, hown⟩ | hnew
    · obtain ⟨j, c, hc, hin⟩ := h.owned p hold
      have hj : j ≠ i := by
        rintro rfl
        obtain rfl := Option.some.inj (ho.symm.trans hc)
        exact hown hin
      exact ⟨j, c, (List.getElem?_set_ne hj.symm).trans hc, hin⟩
    · exact ⟨i, o', List.getElem?_set_self hi, hnew⟩

/-- An operation is accepted; it has no place yet. -/
theorem Queued.push (h : t.Queued) (hl : s.lines = t.engine.lines)
    (hthere : ∀ id e, t.engine.entries.get? id = some e → ∃ e', s.entries.get? id = some e')
    (hphase : o.phase = .accepted)
    (hmerge : ∀ target source, o.request = .merge target source → target ≠ source) :
    Queued ⟨s, t.operations ++ [o]⟩ := by
  have hstore := h.withEngine hl hthere
  have hplaces : o.phase.places = [] := by
    rw [hphase]
    rfl
  refine ⟨hstore.formed, fun j c hc => ?_, fun j c hc => ?_, fun j k c c' hjk hc hc' p hp => ?_,
    fun p hp => ?_⟩
  · rcases getElem?_concat_cases hc with ⟨-, hold⟩ | ⟨-, rfl⟩
    · exact hstore.placed j c hold
    · rw [hphase]
      exact trivial
  · rcases getElem?_concat_cases hc with ⟨-, hold⟩ | ⟨-, rfl⟩
    · exact h.merges j c hold
    · exact hmerge
  · rcases getElem?_concat_cases hc with ⟨-, hold⟩ | ⟨-, rfl⟩
    · rcases getElem?_concat_cases hc' with ⟨-, hold'⟩ | ⟨-, rfl⟩
      · exact h.apart j k c c' hjk hold hold' p hp
      · rw [hplaces]
        exact List.not_mem_nil
    · rw [hplaces] at hp
      cases hp
  · obtain ⟨j, c, hc, hin⟩ := hstore.owned p hp
    obtain ⟨hj, -⟩ := List.getElem?_eq_some_iff.mp hc
    exact ⟨j, c, (List.getElem?_append_left hj).trans hc, hin⟩

/-- A step of an operation does to the lines what the operation does with its places. -/
theorem advance_queues {a : Account} (h : t.Queued) (hs : t.engine.Outlines a) (ha : a.WellFormed)
    (ho : t.operations[i]? = some o) :
    Engine.Queues t.engine o.phase.places (t.engine.advance o).1 (t.engine.advance o).2.1.phase :=
  (advancePhase_queues hs ha h.formed (h.placed i o ho) (h.merges i o ho)).of_lines_eq
    (lines_settle _ _) fun id e he => by
      obtain ⟨e', he', -⟩ := (Alike.settle _ _).entry id e he
      exact ⟨e', he'⟩

/-- An operation that is given up leaves its places. -/
theorem abandon_clears (h : t.Queued) (o : Operation) (error : SegmentError) :
    t.engine.Clears (t.engine.abandon o error).1 o.phase.places :=
  (Clears.leaveAll h.formed o.phase.places).of_lines_eq (lines_settle _ _)

/-- An operation that goes no further than to its next turn keeps the queues. -/
theorem Queued.pause {rs : List Record} {rest : Bytes}
    {found : SegmentId → AttributeId → AttributeValue} (h : t.Queued) (hs : t.Sound rs rest found)
    (i : Nat) : (t.pause i).Queued := by
  unfold Traffic.pause
  split
  · exact h
  · next o ho =>
    refine h.set ho (comeToTurn_queues hs.engine.agrees.outlines hs.engine.wellFormed h.formed
      (h.placed i o ho) (h.merges i o ho)) rfl fun id e he => ?_
    obtain ⟨e', he', -⟩ := (Alike.comeToTurn t.engine o).entry id e he
    exact ⟨e', he'⟩

/-- Every move keeps the queues. -/
theorem Queued.step {rs : List Record} {rest : Bytes}
    {found : SegmentId → AttributeId → AttributeValue} (h : t.Queued) (hs : t.Sound rs rest found)
    (m : Move) : (t.step m).Queued := by
  obtain ⟨new, rest', hfollows⟩ := hs.step m
  have hthere : ∀ id e, t.engine.entries.get? id = some e →
      ∃ e', (t.step m).engine.entries.get? id = some e' := by
    intro id e he
    obtain ⟨e', he', -⟩ := hfollows.precedes id e he
    exact ⟨e', he'⟩
  have houtlines := hs.engine.agrees.outlines
  cases m with
  | submit request timeout =>
    cases ha : t.engine.accept request timeout with
    | error e =>
      simp only [Traffic.step, ha]
      exact h
    | ok accepted =>
      obtain ⟨engine, o⟩ := accepted
      obtain ⟨hvalid, rfl, hphase, pending, rfl⟩ := accept_eq_ok ha
      simp only [Traffic.step, ha] at hthere ⊢
      refine h.push (lines_of_entries rfl) hthere hphase fun target source hrequest => ?_
      rw [hrequest] at hvalid
      exact Request.ne_of_validate hvalid
  | advance i =>
    cases ho : t.operations[i]? with
    | none =>
      simp only [Traffic.step, ho]
      exact h
    | some o =>
      have hq := advance_queues h houtlines hs.engine.wellFormed ho
      simp only [Traffic.step, ho] at hthere ⊢
      exact h.set ho hq rfl hthere
  | pause i => exact h.pause hs i
  | abandon i error =>
    cases ho : t.operations[i]? with
    | none =>
      simp only [Traffic.step, ho]
      exact h
    | some o =>
      simp only [Traffic.step, ho] at hthere ⊢
      split
      · exact h
      · next hf =>
        rw [if_neg hf] at hthere
        exact h.set ho (.ends _ (abandon_clears h o error)) rfl hthere
  | evict name => exact h.withEngine (lines_evict houtlines name) hthere
  | trim segment max => exact h.withEngine (lines_modifyEntry _ _ fun _ => rfl) hthere
  | writeThrough segment => exact h.withEngine (lines_writeThrough _ segment) hthere
  | refuse refusing => exact h.withEngine (lines_of_entries rfl) hthere
  | tick clock => exact h.withEngine (lines_of_entries rfl) hthere
  | crashAfter threshold => exact h.withEngine (lines_of_entries rfl) hthere
  | failFlush fail => exact h.withEngine (lines_of_entries rfl) hthere
  | close reader => exact h.withEngine (lines_modifyEntry _ _ fun _ => rfl) hthere
  | shutdown => exact h.withEngine (lines_shutdown _) hthere

/-- A step of an operation is the same if it goes to its next turn first, with nothing in
between. -/
theorem Queued.step_pause {a : Account} (h : t.Queued) (hs : t.engine.Outlines a)
    (ha : a.WellFormed) (i : Nat) : (t.pause i).step (.advance i) = t.step (.advance i) := by
  cases ho : t.operations[i]? with
  | none => simp only [Traffic.pause, ho]
  | some o =>
    obtain ⟨hi, -⟩ := List.getElem?_eq_some_iff.mp ho
    have hsame := advancePhase_comeToTurn hs ha h.formed (h.placed i o ho) (h.merges i o ho)
    simp only [Traffic.pause, ho, Traffic.step, List.getElem?_set_self hi, List.set_set,
      Engine.advance, hsame]

end Traffic

end Segments
