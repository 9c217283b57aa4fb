import Segments.Proofs.Absence

/-!
# Operations where they wait

Between its acceptance and its last step an operation has come to some lines, or has looked up what
memory knows of some attributes. Without its places and its registrations the store is then what it
was, but for the tickets that were given out and for the recency of cached values.
-/

namespace Segments

namespace TurnLine

variable {l : TurnLine} {n : Nat}

/-- More tickets were given out. -/
theorem WellFormed.raise (h : l.WellFormed) (hn : l.issued ≤ n) :
    ({ l with issued := n } : TurnLine).WellFormed :=
  ⟨h.free, h.sorted, fun ticket hticket => Nat.le_trans (h.issued ticket hticket) hn⟩

end TurnLine

/-- The phase that follows from a check is not the end only if the check was passed. -/
theorem Phase.isFinished_ofCheck {α : Type} {s : Engine} {check : Except SegmentError α}
    {next : α → Engine × Phase × List Event}
    (h : (ofCheck s check next).2.1.isFinished = false) :
    ∃ x, check = .ok x ∧ ofCheck s check next = next x := by
  cases check with
  | error e => cases h
  | ok x => exact ⟨x, rfl, rfl⟩

namespace Engine

variable {s s' s'' : Engine} {a : Account} {own arrived : List Place} {rs : List Registration}
  {id : SegmentId} {o : Operation}

/-- Whoever clears the same places leaves the same lines, but for the tickets given out. -/
theorem Clears.lines_eq (hw : s.LinesFormed) (h : s.Clears s' own) (h' : s.Clears s'' own)
    (hissued : (s'.lines id).issued ≤ (s''.lines id).issued) :
    s''.lines id = { s'.lines id with issued := (s''.lines id).issued } := by
  refine (h'.spares.formed id).eq_of ((h.spares.formed id).raise hissued) rfl ?_ fun x => ?_
  · exact (h'.tickets id).trans (h.tickets id).symm
  · have hlines : ({ s'.lines id with issued := (s''.lines id).issued } : TurnLine).holds x =
      (s'.lines id).holds x := rfl
    rw [hlines]
    by_cases hx : x ∈ (s.lines id).tickets ∧ (⟨id, x⟩ : Place) ∉ own
    · have hle := (hw id).issued x hx.1
      have hfirst := h.spares.holds ⟨id, x⟩ hle hx.2
      have hsecond := h'.spares.holds ⟨id, x⟩ hle hx.2
      rw [hasTurn_eq, hasTurn_eq] at hfirst hsecond
      rw [hfirst, hsecond]
    · -- nobody with this ticket stands at either line
      refine iff_of_false (fun hholds => hx ?_) fun hholds => hx ?_
      · have hmem := TurnLine.mem_tickets_of_holds hholds
        rw [h'.tickets, List.mem_filter] at hmem
        exact ⟨hmem.1, of_decide_eq_true hmem.2⟩
      · have hmem := TurnLine.mem_tickets_of_holds hholds
        rw [h.tickets, List.mem_filter] at hmem
        exact ⟨hmem.1, of_decide_eq_true hmem.2⟩

/-- The store without an operation is what it is when the operation has cleared its places. -/
theorem clears_without (hw : s.LinesFormed) (own : List Place) (rs : List Registration) :
    s.Clears (s.without own rs) own := by
  refine (Clears.leaveAll hw own).of_lines_eq ?_
  funext id
  rw [lines_without, leaveAll_eq_recast]
  exact (lines_recast (F := fun id l => l.without id own) without_empty id).symm

/-- What is left of an operation that does not end: tickets that were given out, or attributes that
were looked at. -/
inductive Skips (s : Engine) : Engine → Prop where
  /-- More tickets were given out. -/
  | counts (n : SegmentId → Nat) :
      Skips s (s.recast (fun id l => { l with issued := max l.issued (n id) }) fun p => p)
  /-- Attributes were looked at. -/
  | looks (id : SegmentId) (ids : List AttributeId) : Skips s (s.touch id ids)

/-- An operation that has come to more lines is present there only by its places. -/
theorem Joins.skips (hw : s.LinesFormed) (hrelined : s.Relined s') (h : s.Joins s' own arrived) :
    (s.without own rs).Skips (s'.without (arrived ++ own) rs) := by
  have hold := clears_without hw own rs
  have hnew := h.clears hw (clears_without h.spares.formed (arrived ++ own) rs)
  have hsame : s'.without (arrived ++ own) rs =
      (s.without own rs).recast
        (fun id l => { l with issued := max l.issued (s'.lines id).issued }) fun p => p := by
    conv_lhs => rw [hrelined]
    unfold without
    rw [recast_recast, recast_recast]
    refine recast_congr (fun id e he => ?_) rfl
    have hissued := h.spares.issued id
    have hleft : ((s.without own rs).lines id).issued ≤
        ((s'.without (arrived ++ own) rs).lines id).issued := by
      rw [lines_without, lines_without, TurnLine.issued_without, TurnLine.issued_without]
      exact hissued
    have hline := hold.lines_eq hw hnew hleft
    rw [lines_without, lines_without, TurnLine.issued_without] at hline
    rw [← lines_of_get? he, hline, TurnLine.issued_without, Nat.max_eq_right hissued]
  rw [hsame]
  exact .counts _

/-! ## What changes where an operation waits -/

theorem takeTurns_relined {action : Action} {held : List Place} {wanted : List SegmentId}
    (h : (s.takeTurns action held wanted).2.1.isFinished = false) :
    s.Relined (s.takeTurns action held wanted).1 := by
  induction wanted generalizing s held with
  | nil =>
    unfold takeTurns at h
    cases hopen : s.requireOpen with
    | error e =>
      rw [hopen] at h
      cases h
    | ok u =>
      rw [hopen] at h
      cases h
  | cons id wanted ih =>
    unfold takeTurns at h ⊢
    simp only at h ⊢
    split
    · next hturn =>
      rw [if_pos hturn] at h
      exact (Relined.modifyTurns s id fun _ => (s.lines id).arrive.1).trans (ih h)
    · exact Relined.modifyTurns s id fun _ => (s.lines id).arrive.1

/-- Where an operation waits it has changed nothing but lines, or has looked at attributes. -/
theorem begin_suspended {barrier : Nat} {request : Request}
    (h : (s.begin barrier request).2.1.isFinished = false) :
    s.Relined (s.begin barrier request).1 ∨
      ((s.begin barrier request).2.1.places = [] ∧
        ∃ id ids, (s.begin barrier request).1 = s.touch id ids) := by
  cases hq : request.changes with
  | true =>
    rcases begin_of_changes s barrier hq with ⟨e, he⟩ | ⟨action, haction, he⟩
    · rw [he] at h
      cases h
    · rw [he] at h ⊢
      exact Or.inl (takeTurns_relined h)
  | false =>
    cases request with
    | lookup name ids cache =>
      obtain ⟨u, -, hopen⟩ := Phase.isFinished_ofCheck h
      simp only [begin, beginLookup] at h ⊢
      rw [hopen] at h ⊢
      obtain ⟨e, -, hfound⟩ := Phase.isFinished_ofCheck h
      rw [hfound] at h ⊢
      obtain ⟨u', -, hreadable⟩ := Phase.isFinished_ofCheck h
      rw [hreadable] at h ⊢
      simp only at h ⊢
      split at h
      · cases h
      · next hmissing =>
        rw [if_neg hmissing]
        exact Or.inr ⟨rfl, e.id, ids, rfl⟩
    | read name offset maxLength =>
      obtain ⟨u, -, hopen⟩ := Phase.isFinished_ofCheck h
      simp only [begin, beginRead] at h
      rw [hopen] at h
      cases h
    | info name wait =>
      simp only [begin, describe] at h ⊢
      split at h
      · next hwaits =>
        rw [if_pos hwaits]
        exact Or.inl (.refl s)
      · cases h
    | _ => cases hq

theorem advancePhase_suspended (h : (s.advancePhase o).2.1.isFinished = false) :
    s.Relined (s.advancePhase o).1 ∨
      (o.phase.places = [] ∧ (s.advancePhase o).2.1.places = [] ∧
        ∃ id ids, (s.advancePhase o).1 = s.touch id ids) := by
  obtain ⟨request, barrier, registrations, phase⟩ := o
  cases phase with
  | accepted =>
    rcases begin_suspended h with hrelined | ⟨hplaces, htouched⟩
    · exact Or.inl hrelined
    · exact Or.inr ⟨rfl, hplaces, htouched⟩
  | inLine action held place wanted =>
    have hrelined := Relined.modifyTurns s place.segment fun l => l.takeUp place.ticket
    left
    unfold advancePhase at h ⊢
    simp only at h ⊢
    split at h
    · next hturn =>
      rw [if_pos hturn]
      exact hrelined.trans (takeTurns_relined h)
    · next hturn =>
      rw [if_neg hturn]
      exact hrelined
  | fetching id lookup cache => exact Or.inl (.refl s)
  | fetched id lookup cache values =>
    obtain ⟨answer, hanswer⟩ := finishLookup_finished s id lookup cache values
    have hends : (s.advancePhase ⟨request, barrier, registrations,
      .fetched id lookup cache values⟩).2.1 = .finished (.ok answer) := hanswer
    rw [hends] at h
    cases h
  | finished result => cases h

theorem comeTo_relined (s : Engine) (action : Action) (held : List Place) (otherwise : Phase)
    (wanted : List SegmentId) : s.Relined (s.comeTo action held otherwise wanted).1 := by
  cases wanted with
  | nil => exact .refl s
  | cons id wanted => exact Relined.modifyTurns s id fun _ => (s.lines id).arrive.1

theorem comeToTurn_relined (s : Engine) (o : Operation) : s.Relined (s.comeToTurn o).1 := by
  unfold comeToTurn
  split
  · split
    · exact comeTo_relined s _ _ _ _
    · exact .refl s
  · next action held place wanted _ =>
    have hrelined := Relined.modifyTurns s place.segment fun l => l.takeUp place.ticket
    simp only
    split
    · exact hrelined.trans (comeTo_relined _ action _ _ wanted)
    · exact hrelined
  · exact .refl s

/-- A step of an operation that does not end with it leaves nothing behind without the operation. -/
theorem advancePhase_skips (h : s.Outlines a) (ha : a.WellFormed) (hw : s.LinesFormed)
    (ho : o.phase.Placed s)
    (hne : ∀ target source, o.request = .merge target source → target ≠ source)
    (hf : (s.advancePhase o).2.1.isFinished = false) (rs : List Registration) :
    (s.without o.phase.places rs).Skips
      ((s.advancePhase o).1.without (s.advancePhase o).2.1.places rs) := by
  have hqueues := advancePhase_queues h ha hw ho hne
  rcases advancePhase_suspended hf with hrelined | ⟨hplaces, hplaces', id, ids, htouched⟩
  · generalize (s.advancePhase o).1 = s', (s.advancePhase o).2.1 = phase at *
    cases hqueues with
    | stays arrived unfinished places joins placed =>
      rw [places]
      exact joins.skips hw hrelined
    | ends result clears => cases hf
  · have hsame : (s.touch id ids).without [] rs = (s.without [] rs).touch id ids :=
      (touch_recast id ids).symm
    rw [hplaces, hplaces', htouched, hsame]
    exact .looks id ids

theorem comeToTurn_skips (h : s.Outlines a) (ha : a.WellFormed) (hw : s.LinesFormed)
    (ho : o.phase.Placed s)
    (hne : ∀ target source, o.request = .merge target source → target ≠ source)
    (hf : o.phase.isFinished = false) (rs : List Registration) :
    (s.without o.phase.places rs).Skips
      ((s.comeToTurn o).1.without (s.comeToTurn o).2.places rs) := by
  have hqueues := comeToTurn_queues h ha hw ho hne
  have hrelined := comeToTurn_relined s o
  have hf' := (Traffic.comeToTurn_isFinished s o).trans hf
  generalize (s.comeToTurn o).1 = s', (s.comeToTurn o).2 = phase at *
  cases hqueues with
  | stays arrived unfinished places joins placed =>
    rw [places]
    exact joins.skips hw hrelined
  | ends result clears => cases hf'

end Engine

end Segments
