import Mathlib.Algebra.Order.Ring.Nat
import Mathlib.Data.Prod.Lex
import Mathlib.Logic.Relation
import Mathlib.Order.WellFounded
import Segments.Proofs.Registrations

/-!
# Who waits for whom

An operation waits for another if that one stands further ahead at the line that it has come to, or
was accepted earlier and is to be waited for. The first kind of waiting leads to younger segments or
to lower tickets, because turns are taken from the oldest segment on; the second kind leads to lower
barriers, and from there never back from the first to the second. So nobody waits for itself over
others, somebody can always go on, and operations that go on one after another all come to an end.
-/

namespace Segments

/-- How many steps an operation has before it, at most. -/
def Phase.stepsLeft : Phase → Nat
  | accepted => 3
  | inLine _ _ _ wanted => wanted.length + 1
  | fetching .. => 2
  | fetched .. => 1
  | finished _ => 0

theorem Phase.isFinished_of_mem_places {phase : Phase} {p : Place} (h : p ∈ phase.places) :
    phase.isFinished = false := by
  cases phase with
  | inLine action held place wanted => rfl
  | _ => cases h

/-- Nobody has a turn, or is offered it, who stands behind another. -/
theorem TurnLine.WellFormed.ticket?_ne {l : TurnLine} (h : l.WellFormed) {ticket other : Nat}
    (hahead : [other, ticket].Sublist l.tickets) : l.turn.ticket? ≠ some ticket := by
  have hlt : other < ticket :=
    (List.pairwise_cons.mp (h.sorted.sublist hahead)).1 _ List.mem_cons_self
  have hmem : other ∈ l.tickets := hahead.subset List.mem_cons_self
  have hsorted := h.sorted
  intro hturn
  rw [TurnLine.tickets, hturn] at hsorted hmem
  rcases List.mem_cons.mp hmem with rfl | hline
  · exact Nat.lt_irrefl _ hlt
  · exact Nat.lt_asymm hlt ((List.pairwise_cons.mp hsorted).1 other hline)

/-- Whoever stands at a line behind nobody has the turn or is offered it. -/
theorem TurnLine.WellFormed.ticket?_eq {l : TurnLine} (h : l.WellFormed) {ticket : Nat}
    (hmem : ticket ∈ l.tickets) (hfirst : ∀ other, ¬[other, ticket].Sublist l.tickets) :
    l.turn.ticket? = some ticket := by
  obtain ⟨before, after, hsplit⟩ := List.append_of_mem hmem
  cases before with
  | cons other before =>
    refine absurd ?_ (hfirst other)
    rw [hsplit]
    have hlast : [ticket].Sublist (before ++ ticket :: after) :=
      List.singleton_sublist.mpr (List.mem_append_right before List.mem_cons_self)
    exact hlast.cons_cons other
  | nil =>
    cases hturn : l.turn.ticket? with
    | some t =>
      rw [TurnLine.tickets, hturn] at hsplit
      rw [(List.cons.inj hsplit).1]
    | none =>
      have hfree : l.turn = .free := by
        cases hl : l.turn with
        | free => rfl
        | offered t => rw [hl] at hturn; cases hturn
        | held t => rw [hl] at hturn; cases hturn
      rw [h.tickets_eq_nil.mpr hfree] at hsplit
      cases hsplit

namespace Traffic

/-- One operation waits for another. -/
inductive WaitsFor (t : Traffic) (i j : Nat) : Prop where
  /-- The other stands further ahead, or has the turn, at the line to which the one has come. -/
  | turn {o o' : Operation} {action : Action} {held : List Place} {place : Place}
      {wanted : List SegmentId} {ticket : Nat} (waiting : t.operations[i]? = some o)
      (phase : o.phase = .inLine action held place wanted) (other : t.operations[j]? = some o')
      (stands : ⟨place.segment, ticket⟩ ∈ o'.phase.places)
      (ahead : [ticket, place.ticket].Sublist (t.engine.lines place.segment).tickets) :
      WaitsFor t i j
  /-- The one waits for earlier operations on a segment, and the other is one of them. -/
  | earlier {o o' : Operation} {name : String} {r : Registration}
      (waiting : t.operations[i]? = some o) (phase : o.phase = .accepted)
      (request : o.request = .info name true) (other : t.operations[j]? = some o')
      (unfinished : o'.phase.isFinished = false) (registered : r ∈ o'.registrations)
      (live : r ∈ t.engine.pending.live) (named : r.name = name) (early : r.ticket ≤ o.barrier) :
      WaitsFor t i j

/-- An operation has not ended. -/
def Unfinished (t : Traffic) (i : Nat) : Prop :=
  ∃ o, t.operations[i]? = some o ∧ o.phase.isFinished = false

variable {t : Traffic} {i j : Nat} {o o' : Operation} {a : Account}

theorem WaitsFor.unfinished (h : t.WaitsFor i j) : t.Unfinished i ∧ t.Unfinished j := by
  cases h with
  | turn waiting phase other stands ahead =>
    exact ⟨⟨_, waiting, by rw [phase]; rfl⟩, ⟨_, other, Phase.isFinished_of_mem_places stands⟩⟩
  | earlier waiting phase request other unfinished registered live named early =>
    exact ⟨⟨_, waiting, by rw [phase]; rfl⟩, ⟨_, other, unfinished⟩⟩

/-! ## Nobody waits for itself -/

/-- The rank of an operation among those that wait: whoever is waited for has a lower one. Among
those in line it is the age of the segment, and then the ticket. -/
def rank (t : Traffic) (i : Nat) : Nat ×ₗ Nat ×ₗ Nat :=
  match t.operations[i]? with
  | none => toLex (0, toLex (0, 0))
  | some o =>
    match o.phase with
    | .accepted => toLex (1, toLex (0, o.barrier))
    | .inLine _ _ place _ =>
      toLex (0, toLex (t.engine.nextId - place.segment, place.ticket))
    | _ => toLex (0, toLex (0, 0))

/-- Whoever is waited for has a lower rank. -/
theorem WaitsFor.rank_lt (h : t.WaitsFor i j) (hq : t.Queued) (hr : t.Registered)
    (hs : t.engine.Outlines a) : t.rank j < t.rank i := by
  cases h with
  | @turn o o' action held place wanted ticket waiting phase other stands ahead =>
    have hsorted : ticket < place.ticket :=
      (List.pairwise_cons.mp ((hq.formed place.segment).sorted.sublist ahead)).1 _
        List.mem_cons_self
    cases hphase : o'.phase with
    | inLine action' held' place' wanted' =>
      have hplaced := hq.placed j o' other
      rw [hphase] at hplaced stands
      simp only [rank, waiting, phase, other, hphase, Prod.Lex.toLex_lt_toLex]
      refine Or.inr ⟨trivial, ?_⟩
      rcases List.mem_cons.mp stands with hplace | hheld
      · -- both stand at the same line
        rw [← hplace]
        exact Or.inr ⟨rfl, hsorted⟩
      · -- the other has this turn and waits for one of a younger segment
        have htail := (List.pairwise_append.mp hplaced.order).2.1
        have hyounger : place.segment < place'.segment :=
          (List.pairwise_cons.mp htail).1 _ (List.mem_map.mpr ⟨_, hheld, rfl⟩)
        obtain ⟨e, he⟩ := Engine.exists_of_mem_tickets hplaced.inLine
        have hlt := hs.numbered he
        exact Or.inl (Nat.sub_lt_sub_left (Nat.lt_trans hyounger hlt) hyounger)
    | accepted | fetching | fetched | finished =>
      rw [hphase] at stands
      cases stands
  | @earlier o o' name r waiting phase request other unfinished registered live named early =>
    cases hphase : o'.phase with
    | accepted =>
      have hlt := (hr.numbered j o' other r registered).1
      simp only [rank, waiting, phase, other, hphase, Prod.Lex.toLex_lt_toLex]
      exact Or.inr ⟨trivial, Or.inr ⟨trivial, Nat.lt_of_lt_of_le hlt early⟩⟩
    | inLine | fetching | fetched | finished =>
      simp only [rank, waiting, phase, other, hphase, Prod.Lex.toLex_lt_toLex]
      exact Or.inl Nat.zero_lt_one

theorem rank_lt_of_transGen (h : Relation.TransGen t.WaitsFor i j) (hq : t.Queued)
    (hr : t.Registered) (hs : t.engine.Outlines a) : t.rank j < t.rank i := by
  induction h with
  | single hwaits => exact hwaits.rank_lt hq hr hs
  | tail _ hwaits ih => exact (hwaits.rank_lt hq hr hs).trans ih

/-- Among those that have not ended one waits for nobody. -/
theorem exists_waits_none (hq : t.Queued) (hr : t.Registered) (hs : t.engine.Outlines a)
    (h : t.Unfinished i) : ∃ j, t.Unfinished j ∧ ∀ k, ¬t.WaitsFor j k := by
  obtain ⟨j, hj, hmin⟩ := (InvImage.wf t.rank wellFounded_lt).has_min
    {j | t.Unfinished j} ⟨i, h⟩
  exact ⟨j, hj, fun k hwaits => hmin k hwaits.unfinished.2 (hwaits.rank_lt hq hr hs)⟩

/-! ## Who waits stays, and who waits for nobody goes on -/

/-- An operation that waits for another does not go on. -/
theorem WaitsFor.stays (h : t.WaitsFor i j) (hq : t.Queued) :
    (t.step (.advance i)).operations = t.operations := by
  cases h with
  | @turn o o' action held place wanted ticket waiting phase other stands ahead =>
    have hl := Engine.lines_modifyTurns_of_empty t.engine place.segment
      (f := fun l => l.takeUp place.ticket) (by simp [TurnLine.takeUp, TurnLine.empty])
    have hnot : (t.engine.modifyTurns place.segment fun l =>
        l.takeUp place.ticket).hasTurn place = false := by
      have hne := (hq.formed place.segment).ticket?_ne ahead
      rw [Engine.hasTurn_eq, hl, if_pos rfl, Bool.eq_false_iff, ne_eq,
        TurnLine.holds_takeUp_self, not_or]
      constructor
      · intro hturn
        exact hne (by rw [hturn]; rfl)
      · intro hturn
        exact hne (by rw [hturn]; rfl)
    have hphase : (t.engine.advance o).2.1 = o := by
      obtain ⟨request, barrier, registrations, phase⟩ := o
      subst phase
      simp only [Engine.advance, Engine.advancePhase, hnot, Bool.false_eq_true, ↓reduceIte]
    simp only [step, waiting, hphase]
    exact set_of_getElem? waiting
  | @earlier o o' name r waiting phase request other unfinished registered live named early =>
    have hnot : t.engine.pending.isClear name o.barrier = false := by
      rw [Bool.eq_false_iff]
      intro hclear
      have hr := List.all_eq_true.mp hclear r live
      simp only [named, bne_self_eq_false, Bool.false_or, decide_eq_true_eq] at hr
      omega
    have hphase : (t.engine.advance o).2.1 = o := by
      obtain ⟨request, barrier, registrations, phase⟩ := o
      subst phase
      subst request
      simp only [Engine.advance, Engine.advancePhase, Engine.begin, Engine.describe, hnot,
        Bool.not_false, and_self, ↓reduceIte]
    simp only [step, waiting, hphase]
    exact set_of_getElem? waiting

/-- Taking turns leaves a step for each turn that is still to come. -/
theorem stepsLeft_takeTurns (s : Engine) (action : Action) (held : List Place)
    (wanted : List SegmentId) :
    (s.takeTurns action held wanted).2.1.stepsLeft ≤ wanted.length := by
  induction wanted generalizing s held with
  | nil =>
    unfold Engine.takeTurns
    cases s.requireOpen with
    | error e => exact Nat.le_refl 0
    | ok u => exact Nat.le_refl 0
  | cons id wanted ih =>
    unfold Engine.takeTurns
    simp only
    split
    · exact Nat.le_succ_of_le (ih _ _)
    · exact Nat.le_refl _

theorem length_turns (action : Action) : action.turns.length ≤ 2 := by
  unfold Action.turns
  split
  all_goals try simp
  split <;> simp

/-- An operation that begins and does not wait for earlier ones has two more steps before it, at
most. -/
theorem stepsLeft_begin (s : Engine) (barrier : Nat) {request : Request}
    (hclear : ∀ name, request = .info name true → s.pending.isClear name barrier = true) :
    (s.begin barrier request).2.1.stepsLeft ≤ 2 := by
  have checks : ∀ {α : Type} {check : Except SegmentError α}
      {next : α → Engine × Phase × List Event}, (∀ v, (next v).2.1.stepsLeft ≤ 2) →
      (Phase.ofCheck s check next).2.1.stepsLeft ≤ 2 := by
    intro α check next h
    cases check with
    | error e => exact Nat.zero_le 2
    | ok v => exact h v
  cases hq : request.changes with
  | true =>
    rcases Engine.begin_of_changes s barrier hq with ⟨e, he⟩ | ⟨action, haction, he⟩
    · rw [he]
      exact Nat.zero_le 2
    · rw [he]
      exact Nat.le_trans (stepsLeft_takeTurns s action [] _) (length_turns action)
  | false =>
    cases request with
    | lookup name ids cache =>
      refine checks fun _ => checks fun _ => checks fun _ => ?_
      simp only
      split
      · exact Nat.zero_le 2
      · exact Nat.le_refl 2
    | read name offset maxLength => exact checks fun _ => Nat.zero_le 2
    | info name wait =>
      simp only [Engine.begin, Engine.describe]
      split
      · next hwait =>
        obtain ⟨rfl, hnot⟩ := hwait
        rw [hclear name rfl] at hnot
        cases hnot
      · exact Nat.zero_le 2
    | _ => cases hq

/-- An operation that waits for nobody goes on. -/
theorem stepsLeft_advance (hq : t.Queued) (hr : t.Registered) (ho : t.operations[i]? = some o)
    (hf : o.phase.isFinished = false) (hnone : ∀ j, ¬t.WaitsFor i j) :
    (t.engine.advance o).2.1.phase.stepsLeft < o.phase.stepsLeft := by
  cases hphase : o.phase with
  | accepted =>
    have hclear : ∀ name, o.request = .info name true →
        t.engine.pending.isClear name o.barrier = true := by
      intro name hrequest
      rw [Pending.isClear, List.all_eq_true]
      intro r hr'
      by_cases hname : r.name = name
      · refine Bool.or_eq_true_iff.mpr (Or.inr (decide_eq_true (Nat.lt_of_not_le fun hle => ?_)))
        obtain ⟨j, c, hc, hunfinished, hin⟩ := hr.owned r hr'
        exact hnone j (.earlier ho hphase hrequest hc hunfinished hin hr' hname hle)
      · simp [hname]
    simp only [Engine.advance, Engine.advancePhase, hphase]
    exact Nat.lt_succ_of_le (stepsLeft_begin t.engine o.barrier hclear)
  | inLine action held place wanted =>
    have hplaced := hq.placed i o ho
    rw [hphase] at hplaced
    have hfirst : (t.engine.lines place.segment).turn.ticket? = some place.ticket := by
      refine (hq.formed place.segment).ticket?_eq hplaced.inLine fun ticket hahead => ?_
      obtain ⟨j, c, hc, hin⟩ := hq.owned ⟨place.segment, ticket⟩ (hahead.subset List.mem_cons_self)
      exact hnone j (.turn ho hphase hc hin hahead)
    have hl := Engine.lines_modifyTurns_of_empty t.engine place.segment
      (f := fun l => l.takeUp place.ticket) (by simp [TurnLine.takeUp, TurnLine.empty])
    have hturn : (t.engine.modifyTurns place.segment fun l =>
        l.takeUp place.ticket).hasTurn place = true := by
      rw [Engine.hasTurn_eq, hl, if_pos rfl, TurnLine.holds_takeUp_self]
      cases hturn : (t.engine.lines place.segment).turn with
      | free => rw [hturn] at hfirst; cases hfirst
      | offered ticket => rw [hturn] at hfirst; exact Or.inl (by rw [Option.some.inj hfirst])
      | held ticket => rw [hturn] at hfirst; exact Or.inr (by rw [Option.some.inj hfirst])
    simp only [Engine.advance, Engine.advancePhase, hphase, hturn, ↓reduceIte]
    exact Nat.lt_succ_of_le (stepsLeft_takeTurns _ _ _ _)
  | fetching id lookup cache =>
    simp only [Engine.advance, Engine.advancePhase, hphase]
    exact Nat.lt_succ_self 1
  | fetched id lookup cache values =>
    have hends : (t.engine.finishLookup id lookup cache values).2.1.stepsLeft = 0 := by
      unfold Engine.finishLookup
      simp only
      split <;> rfl
    simp only [Engine.advance, Engine.advancePhase, hphase, hends]
    exact Nat.zero_lt_one
  | finished result =>
    rw [hphase] at hf
    cases hf

/-! ## All come to an end -/

/-- How many steps all operations together have before them, at most. -/
def stepsLeft (t : Traffic) : Nat := (t.operations.map fun o => o.phase.stepsLeft).sum

theorem sum_set_lt {l : List Operation} {i : Nat} {o o' : Operation} (ho : l[i]? = some o)
    (hlt : o'.phase.stepsLeft < o.phase.stepsLeft) :
    ((l.set i o').map fun c => c.phase.stepsLeft).sum <
      (l.map fun c => c.phase.stepsLeft).sum := by
  induction l generalizing i with
  | nil => cases ho
  | cons c l ih =>
    cases i with
    | zero =>
      obtain rfl := Option.some.inj ho
      simpa using hlt
    | succ i =>
      have hrest := ih (i := i) (by simpa using ho)
      simpa using hrest

/-- Operations that go on one after another all come to an end. -/
theorem exists_order (config : Config) (logged : Bool) (clock : AttributeValue)
    (strides : List Stride) :
    ∃ order : List Nat, ∀ o ∈ (((start config logged clock).along strides).run
      (order.map .advance)).operations, o.phase.isFinished = true := by
  generalize hn : ((start config logged clock).along strides).stepsLeft = n
  induction n using Nat.strong_induction_on generalizing strides with
  | _ n ih =>
    obtain ⟨hq, hr⟩ := queued_along config logged clock strides
    obtain ⟨rs, rest, left, hstands⟩ := stands_start_along config logged clock strides
    by_cases hall : ∀ o ∈ ((start config logged clock).along strides).operations,
        o.phase.isFinished = true
    · exact ⟨[], hall⟩
    · push Not at hall
      obtain ⟨o, ho, hf⟩ := hall
      obtain ⟨i, hi⟩ := List.getElem?_of_mem ho
      obtain ⟨j, ⟨c, hc, hunfinished⟩, hnone⟩ := exists_waits_none hq hr
        hstands.sound.engine.agrees.outlines ⟨o, hi, by simpa using hf⟩
      -- one that waits for nobody goes on, and the others follow as before
      let next := strides ++ [.moved (.advance j)]
      have hnext : (start config logged clock).along next =
          ((start config logged clock).along strides).step (.advance j) := along_snoc _ _ _
      have hlt : ((start config logged clock).along next).stepsLeft < n := by
        rw [hnext, ← hn]
        simp only [stepsLeft, step, hc]
        exact sum_set_lt hc (stepsLeft_advance hq hr hc hunfinished hnone)
      obtain ⟨order, horder⟩ := ih _ hlt next rfl
      rw [hnext] at horder
      exact ⟨j :: order, horder⟩

/-- At no time do operations wait for each other in a circle. Whatever has happened, operations in
whatever number being overtaken at whatever points: nobody waits for itself over others; among those
that have not ended one waits for nobody; an operation that waits for another stays where it is, and
one that waits for nobody goes on when it is looked at; and looked at in a suitable order all come
to their ends. -/
theorem waits_acyclic_along (config : Config) (logged : Bool) (clock : AttributeValue)
    (strides : List Stride) :
    let t := (start config logged clock).along strides
    (∀ i, ¬Relation.TransGen t.WaitsFor i i) ∧
    (∀ i, t.Unfinished i → ∃ j, t.Unfinished j ∧ ∀ k, ¬t.WaitsFor j k) ∧
    (∀ i j, t.WaitsFor i j → t.Unfinished i ∧ t.Unfinished j ∧
      (t.step (.advance i)).operations = t.operations) ∧
    (∀ i o, t.operations[i]? = some o → o.phase.isFinished = false → (∀ j, ¬t.WaitsFor i j) →
      ∃ o', (t.step (.advance i)).operations[i]? = some o' ∧
        o'.phase.stepsLeft < o.phase.stepsLeft) ∧
    ∃ order : List Nat, ∀ o ∈ (t.run (order.map .advance)).operations,
      o.phase.isFinished = true := by
  intro t
  obtain ⟨hq, hr⟩ := queued_along config logged clock strides
  obtain ⟨rs, rest, left, hstands⟩ := stands_start_along config logged clock strides
  have houtlines := hstands.sound.engine.agrees.outlines
  refine ⟨fun i hcircle => lt_irrefl _ (rank_lt_of_transGen hcircle hq hr houtlines),
    fun i hi => exists_waits_none hq hr houtlines hi, fun i j hwaits =>
      ⟨hwaits.unfinished.1, hwaits.unfinished.2, hwaits.stays hq⟩, fun i o ho hf hnone => ?_,
    exists_order config logged clock strides⟩
  obtain ⟨hi, -⟩ := List.getElem?_eq_some_iff.mp ho
  refine ⟨(t.engine.advance o).2.1, ?_, stepsLeft_advance hq hr ho hf hnone⟩
  simp only [step, ho]
  exact List.getElem?_set_self hi

/-- Two merges between the same segments in both directions, each overtaken at its first turn, and
somebody who asks to wait for both. -/
def crossing : List Stride :=
  [.moved (.submit (.create "a" []) 1), .moved (.submit (.create "b" []) 1),
    .moved (.advance 0), .moved (.advance 1),
    .moved (.submit (.merge "a" "b") 1), .moved (.submit (.merge "b" "a") 1),
    .moved (.submit (.info "a" true) 1), .moved (.pause 2), .moved (.pause 3), .moved (.pause 2)]

/-- The second merge and the last one wait; they end when the first merge has gone on. -/
example :
    let t := (start .standard false 0).along crossing
    (t.run [.advance 3, .advance 4]).result? 3 = none ∧
      (t.run [.advance 3, .advance 4]).result? 4 = none ∧
      (t.run [.advance 2, .advance 3, .advance 4]).result? 2 =
        some (.error (.segmentNotSealed "b")) ∧
      (t.run [.advance 2, .advance 3, .advance 4]).result? 3 =
        some (.error (.segmentNotSealed "a")) ∧
      ((t.run [.advance 2, .advance 3, .advance 4]).result? 4).isSome = true := by
  decide +kernel

end Traffic

end Segments
