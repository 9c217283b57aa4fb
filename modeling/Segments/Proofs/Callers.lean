import Mathlib.Data.List.Induction
import Segments.Proofs.Queues

/-!
# Callers at a line

Those who call for a turn are polled and dropped in any order. A call comes to the line when it is
polled first, and from then on it counts as waiting until it has the turn or is dropped. The tickets
in the line are those of the callers who wait, and the tickets that were granted, followed by those
in the line, are all that were given out but for the abandoned, in order.
-/

namespace Segments

/-- A call for the turn. -/
inductive Caller where
  /-- It was not polled yet. -/
  | called
  /-- It waits for the turn with its ticket. -/
  | waits (ticket : Nat)
  /-- It has got the turn. -/
  | has (ticket : Nat)
  /-- It was dropped, or the turn that it got. -/
  | gone
  deriving DecidableEq, Repr

namespace Caller

/-- The ticket of a caller who waits. -/
def waits? : Caller → Option Nat
  | waits ticket => some ticket
  | _ => none

/-- The ticket of a caller who has the turn. -/
def has? : Caller → Option Nat
  | has ticket => some ticket
  | _ => none

end Caller

/-- What can happen to the callers of a line. -/
inductive TurnMove where
  /-- There is one more call. -/
  | call
  /-- A call is polled. -/
  | poll (i : Nat)
  /-- A call is dropped, or the turn that it got. -/
  | drop (i : Nat)

/-- A line with all that ever called for its turn. -/
structure TurnTaking where
  /-- The line. -/
  line : TurnLine
  /-- The count of those who wait, as it is raised when a call comes to the line and lowered when
  its wait is over or given up. -/
  waiting : Nat
  /-- The calls, first things first. -/
  callers : List Caller
  /-- The tickets that turns were granted to, first things first. -/
  granted : List Nat
  /-- The tickets of the waits that were given up. -/
  abandoned : List Nat

namespace TurnTaking

/-- Nobody has called yet. -/
def start : TurnTaking := ⟨.empty, 0, [], [], []⟩

/-- A call comes to the line. -/
def comes (t : TurnTaking) (i : Nat) : TurnTaking :=
  { t with
    line := t.line.arrive.1
    waiting := t.waiting + 1
    callers := t.callers.set i (.waits t.line.arrive.2) }

/-- The wait of a call is over if the turn is its own. -/
def looks (t : TurnTaking) (i ticket : Nat) : TurnTaking :=
  if t.line.holds ticket then
    { t with
      waiting := t.waiting - 1
      callers := t.callers.set i (.has ticket)
      granted := t.granted ++ [ticket] }
  else t

/-- A call is polled. -/
def polls (t : TurnTaking) (i : Nat) : TurnTaking :=
  match t.callers[i]? with
  | some .called => (t.comes i).looks i t.line.arrive.2
  | some (.waits ticket) => { t with line := t.line.takeUp ticket }.looks i ticket
  | _ => t

/-- A call is dropped, or the turn that it got. -/
def drops (t : TurnTaking) (i : Nat) : TurnTaking :=
  match t.callers[i]? with
  | some .called => { t with callers := t.callers.set i .gone }
  | some (.waits ticket) =>
    { t with
      line := t.line.leave ticket
      waiting := t.waiting - 1
      callers := t.callers.set i .gone
      abandoned := t.abandoned ++ [ticket] }
  | some (.has ticket) =>
    { t with line := t.line.leave ticket, callers := t.callers.set i .gone }
  | _ => t

/-- What is left after one move. -/
def step (t : TurnTaking) : TurnMove → TurnTaking
  | .call => { t with callers := t.callers ++ [.called] }
  | .poll i => t.polls i
  | .drop i => t.drops i

/-- What is left after some moves. -/
def after (moves : List TurnMove) : TurnTaking := moves.foldl step start

/-- The last move is made on what the others lead to. -/
theorem after_concat (moves : List TurnMove) (m : TurnMove) :
    after (moves ++ [m]) = (after moves).step m := List.foldl_append

/-- The tickets of the callers who wait. -/
def waiters (t : TurnTaking) : List Nat := t.callers.filterMap Caller.waits?

/-- The tickets of the callers who have the turn. -/
def holders (t : TurnTaking) : List Nat := t.callers.filterMap Caller.has?

end TurnTaking

/-! ## Those who have no turn yet -/

/-- The ticket of whoever has a turn. -/
def Turn.holder? : Turn → Option Nat
  | held ticket => some ticket
  | _ => none

namespace TurnLine

/-- The tickets of all that have no turn yet, first come first. -/
def waitingTickets (l : TurnLine) : List Nat :=
  match l.turn with
  | .offered ticket => ticket :: l.line
  | _ => l.line

variable {l : TurnLine} {ticket : Nat}

/-- As many tickets wait as the line counts. -/
theorem length_waitingTickets (l : TurnLine) : l.waitingTickets.length = l.waiting := by
  unfold waitingTickets waiting
  cases l.turn <;> rfl

/-- Whoever has the turn stands before all who wait. -/
theorem tickets_eq (l : TurnLine) : l.tickets = l.turn.holder?.toList ++ l.waitingTickets := by
  unfold tickets waitingTickets
  cases l.turn <;> rfl

/-- A ticket that waits is in the line. -/
theorem mem_tickets_of_waiting (h : ticket ∈ l.waitingTickets) : ticket ∈ l.tickets := by
  rw [tickets_eq]
  exact List.mem_append_right _ h

/-- Tickets wait in the order in which they were issued. -/
theorem WellFormed.sorted_waiting (h : l.WellFormed) : l.waitingTickets.Pairwise (· < ·) := by
  have hsorted := h.sorted
  rw [tickets_eq] at hsorted
  exact (List.pairwise_append.mp hsorted).2.1

/-- No ticket waits twice. -/
theorem WellFormed.nodup_waiting (h : l.WellFormed) : l.waitingTickets.Nodup :=
  h.sorted_waiting.imp Nat.ne_of_lt

/-- Whoever comes to a free turn has it at once, and nobody waits. -/
theorem WellFormed.arrive_of_free (h : l.WellFormed) (hfree : l.turn = .free) :
    l.waitingTickets = [] ∧ l.arrive.1.turn = .held l.arrive.2 ∧
      l.arrive.1.waitingTickets = [] := by
  have hline := h.free hfree
  simp [waitingTickets, TurnLine.arrive, hfree, hline]

/-- Whoever comes to a turn that is not free waits behind all others. -/
theorem arrive_of_ne_free (h : l.turn ≠ .free) : l.arrive.1.turn = l.turn ∧
    l.arrive.1.waitingTickets = l.waitingTickets ++ [l.arrive.2] := by
  unfold arrive waitingTickets
  cases hturn : l.turn with
  | free => exact absurd hturn h
  | offered t => simp
  | held t => simp

/-- If nobody has the turn, it is offered to the first of those who wait. -/
theorem WellFormed.offered_of_least (h : l.WellFormed) (hnone : l.turn.holder? = none)
    (hmem : ticket ∈ l.waitingTickets) (hleast : ∀ other ∈ l.waitingTickets, ticket ≤ other) :
    l.turn = .offered ticket := by
  cases hturn : l.turn with
  | free =>
    rw [(h.arrive_of_free hturn).1] at hmem
    cases hmem
  | held t => simp [hturn, Turn.holder?] at hnone
  | offered t =>
    have hsorted := h.sorted_waiting
    simp only [waitingTickets, hturn] at hmem hleast hsorted
    have hle := hleast t List.mem_cons_self
    rcases List.mem_cons.mp hmem with rfl | hlater
    · rfl
    · have hlt := (List.pairwise_cons.mp hsorted).1 ticket hlater
      omega

/-- A turn that is passed on is offered to the first in line. -/
theorem pass_eq (l : TurnLine) : l.pass.turn.holder? = none ∧ l.pass.waitingTickets = l.line := by
  unfold pass waitingTickets
  cases l.line <;> exact ⟨rfl, by simp⟩

/-- Whoever gives up the turn passes it on, and all who wait still wait. -/
theorem leave_of_held (h : l.turn = .held ticket) : (l.leave ticket).turn.holder? = none ∧
    (l.leave ticket).waitingTickets = l.waitingTickets := by
  have hwaiting : l.waitingTickets = l.line := by simp only [waitingTickets, h]
  rw [leave, if_pos (Or.inl h), hwaiting]
  exact l.pass_eq

/-- Whoever gives up waiting waits no more, and who has the turn keeps it. -/
theorem WellFormed.leave_of_waiting (h : l.WellFormed) (hmem : ticket ∈ l.waitingTickets) :
    (l.leave ticket).turn.holder? = l.turn.holder? ∧
      (l.leave ticket).waitingTickets = l.waitingTickets.erase ticket := by
  have hfilter : ∀ ts : List Nat, ts.Nodup → ts.filter (· != ticket) = ts.erase ticket :=
    fun ts hts => (hts.erase_eq_filter ticket).symm
  have hnodup := h.nodup_waiting
  have hsorted := h.sorted
  rw [tickets_eq] at hsorted
  unfold TurnLine.leave
  cases hturn : l.turn with
  | free =>
    rw [(h.arrive_of_free hturn).1] at hmem
    cases hmem
  | held t =>
    rw [hturn] at hsorted
    have hlt : t < ticket :=
      (List.pairwise_append.mp hsorted).2.2 t List.mem_cons_self ticket hmem
    have hne := Nat.ne_of_lt hlt
    simp only [waitingTickets, hturn] at hnodup
    simp [waitingTickets, hne, hturn, hfilter _ hnodup]
  | offered t =>
    simp only [waitingTickets, hturn] at hnodup
    by_cases ht : t = ticket
    · subst ht
      simpa [waitingTickets, hturn, Turn.holder?] using l.pass_eq
    · simp [waitingTickets, ht, hturn, hfilter _ (List.nodup_cons.mp hnodup).2]

end TurnLine

namespace TurnTaking

/-- How callers and their line stand to each other. -/
structure Orderly (t : TurnTaking) : Prop where
  /-- The line is well formed. -/
  formed : t.line.WellFormed
  /-- Whoever has the turn is a caller. -/
  turns : t.holders.Perm t.line.turn.holder?.toList
  /-- Those who wait in the line are the callers who wait. -/
  waits : t.waiters.Perm t.line.waitingTickets
  /-- They are counted. -/
  counted : t.waiting = t.waiters.length
  /-- All tickets but the abandoned are granted in order. -/
  served : t.granted ++ t.line.waitingTickets =
    (List.range' 1 t.line.issued).filter fun n => decide (n ∉ t.abandoned)
  /-- What was abandoned was given out. -/
  known : ∀ n ∈ t.abandoned, n ≤ t.line.issued
  /-- Whoever has the turn got it last. -/
  latest : ∀ n ∈ t.line.turn.holder?, t.granted.getLast? = some n

variable {t : TurnTaking} {i ticket : Nat}

/-- Nobody stands in an empty line. -/
theorem orderly_start : start.Orderly where
  formed := TurnLine.wellFormed_empty
  turns := .refl _
  waits := .refl _
  counted := rfl
  served := rfl
  known n h := by cases h
  latest n h := by cases h

/-- The tickets that were granted, and behind them those that wait, rise. -/
theorem Orderly.sorted (h : t.Orderly) :
    (t.granted ++ t.line.waitingTickets).Pairwise (· < ·) := by
  rw [h.served]
  exact (List.pairwise_lt_range' 1).filter _

/-- Who waits stands in line. -/
theorem Orderly.mem_waiting (h : t.Orderly) (hi : t.callers[i]? = some (.waits ticket)) :
    ticket ∈ t.line.waitingTickets :=
  h.waits.subset (List.mem_filterMap.mpr ⟨_, List.mem_of_getElem? hi, rfl⟩)

/-- Who has the turn has it in the line too. -/
theorem Orderly.turn_of_has (h : t.Orderly) (hi : t.callers[i]? = some (.has ticket)) :
    t.line.turn = .held ticket := by
  have hin := h.turns.subset (List.mem_filterMap.mpr ⟨_, List.mem_of_getElem? hi, rfl⟩)
  cases hturn : t.line.turn <;> simp_all [Turn.holder?]

/-- No two callers wait with one ticket. -/
theorem Orderly.apart (h : t.Orderly) {j : Nat} (hi : t.callers[i]? = some (.waits ticket))
    (hj : t.callers[j]? = some (.waits ticket)) : i = j := by
  by_contra hij
  obtain ⟨rest, hold, hnew⟩ := exists_filterMap_set hj Caller.waits? .gone
  have hnodup := (h.waits.symm.trans hold).nodup_iff.mp h.formed.nodup_waiting
  have hstill : (t.callers.set j .gone)[i]? = some (.waits ticket) :=
    (List.getElem?_set_ne (Ne.symm hij)).trans hi
  exact (List.nodup_cons.mp hnodup).1
    (hnew.subset (List.mem_filterMap.mpr ⟨_, List.mem_of_getElem? hstill, rfl⟩))

/-- One more call changes nothing for the others. -/
theorem Orderly.called (h : t.Orderly) : Orderly { t with callers := t.callers ++ [.called] } := by
  have hturns : (t.callers ++ [Caller.called]).filterMap Caller.has? = t.holders := by
    rw [List.filterMap_append]
    exact List.append_nil _
  have hwaits : (t.callers ++ [Caller.called]).filterMap Caller.waits? = t.waiters := by
    rw [List.filterMap_append]
    exact List.append_nil _
  exact ⟨h.formed, (List.Perm.of_eq hturns).trans h.turns, (List.Perm.of_eq hwaits).trans h.waits,
    h.counted.trans (congrArg List.length hwaits.symm), h.served, h.known, h.latest⟩

/-- The next ticket to be given out was not abandoned. -/
theorem Orderly.next (h : t.Orderly) :
    (List.range' 1 (t.line.issued + 1)).filter (fun n => decide (n ∉ t.abandoned)) =
      t.granted ++ t.line.waitingTickets ++ [t.line.issued + 1] := by
  have hnew : t.line.issued + 1 ∉ t.abandoned := fun hin => by
    have hle := h.known _ hin
    omega
  rw [List.range'_1_concat, List.filter_append, h.served, Nat.add_comm 1]
  simp [hnew]

/-- A call comes to the line where the turn is not free. -/
theorem Orderly.comes (h : t.Orderly) (hi : t.callers[i]? = some .called)
    (hturn : t.line.turn ≠ .free) : (t.comes i).Orderly := by
  obtain ⟨hsame, hbehind⟩ := TurnLine.arrive_of_ne_free hturn
  obtain ⟨rest, hold, hnew⟩ := exists_filterMap_set hi Caller.has? (.waits t.line.arrive.2)
  obtain ⟨rest', hold', hnew'⟩ := exists_filterMap_set hi Caller.waits? (.waits t.line.arrive.2)
  have hwaits : (t.comes i).waiters.Perm (t.line.arrive.2 :: t.waiters) :=
    hnew'.trans (hold'.symm.cons _)
  refine ⟨h.formed.arrive, ?_, ?_, ?_, ?_, fun n hn => ?_, fun n hn => ?_⟩
  · refine hnew.trans (hold.symm.trans ?_)
    simp only [TurnTaking.comes, hsame]
    exact h.turns
  · simp only [TurnTaking.comes, hbehind]
    exact hwaits.trans ((h.waits.cons _).trans (List.perm_append_singleton _ _).symm)
  · rw [hwaits.length_eq, List.length_cons, ← h.counted]
    rfl
  · simp only [TurnTaking.comes, hbehind, TurnLine.arrive_issued, h.next, TurnLine.arrive_ticket,
      List.append_assoc]
  · have hle := h.known n hn
    simp only [TurnTaking.comes, TurnLine.arrive_issued]
    omega
  · simp only [TurnTaking.comes, hsame] at hn
    exact h.latest n hn

/-- A call that comes to a free turn has it at once. -/
theorem Orderly.gets (h : t.Orderly) (hi : t.callers[i]? = some .called)
    (hfree : t.line.turn = .free) : ((t.comes i).looks i t.line.arrive.2).Orderly := by
  obtain ⟨hnone, hheld, hnone'⟩ := h.formed.arrive_of_free hfree
  have hholds : t.line.arrive.1.holds t.line.arrive.2 = true :=
    (TurnLine.holds_arrive_self h.formed).mpr hfree
  obtain ⟨rest, hold, hnew⟩ := exists_filterMap_set hi Caller.has? (.has t.line.arrive.2)
  obtain ⟨rest', hold', hnew'⟩ := exists_filterMap_set hi Caller.waits? (.has t.line.arrive.2)
  simp only [TurnTaking.comes, looks, hholds, ↓reduceIte, List.set_set]
  have hrest : rest = [] := by
    have hturns := hold.symm.trans h.turns
    rw [hfree] at hturns
    exact List.perm_nil.mp hturns
  refine ⟨h.formed.arrive, ?_, ?_, ?_, ?_, fun n hn => ?_, fun n hn => ?_⟩
  · simp only [hheld]
    rw [hrest] at hnew
    exact hnew
  · simp only [hnone']
    exact hnew'.trans (hold'.symm.trans (hnone ▸ h.waits))
  · exact h.counted.trans (hnew'.trans hold'.symm).length_eq.symm
  · simp only [hnone', TurnLine.arrive_issued, h.next, TurnLine.arrive_ticket, hnone,
      List.append_nil]
  · have hle := h.known n hn
    simp only [TurnLine.arrive_issued]
    omega
  · simp only [hheld] at hn
    exact List.getLast?_concat.trans hn

/-- A call takes up the turn that it is offered. -/
theorem Orderly.takesUp (h : t.Orderly) (hi : t.callers[i]? = some (.waits ticket))
    (hturn : t.line.turn = .offered ticket) :
    (({ t with line := t.line.takeUp ticket } : TurnTaking).looks i ticket).Orderly := by
  have hholds : (t.line.takeUp ticket).holds ticket = true :=
    TurnLine.holds_takeUp_self.mpr (Or.inl hturn)
  obtain ⟨rest, hold, hnew⟩ := exists_filterMap_set hi Caller.has? (.has ticket)
  obtain ⟨rest', hold', hnew'⟩ := exists_filterMap_set hi Caller.waits? (.has ticket)
  have hformed := h.formed.takeUp ticket
  have hwaits := hold'.symm.trans h.waits
  have hcounted := h.counted
  have hserved := h.served
  have hturns := hold.symm.trans h.turns
  rw [waiters, hold'.length_eq] at hcounted
  simp only [TurnLine.waitingTickets, hturn] at hwaits hserved hturns
  simp only [looks, hholds, ↓reduceIte]
  simp only [TurnLine.takeUp, hturn, ↓reduceIte] at hformed ⊢
  refine ⟨hformed, ?_, hnew'.trans hwaits.cons_inv, ?_, ?_, h.known,
    fun n hn => List.getLast?_concat.trans hn⟩
  · have hrest : rest = [] := List.perm_nil.mp hturns
    rw [hrest] at hnew
    exact hnew
  · rw [waiters, hnew'.length_eq, hcounted]
    rfl
  · simpa [TurnLine.waitingTickets] using hserved

/-- A call gives up waiting. -/
theorem Orderly.givesUp (h : t.Orderly) (hi : t.callers[i]? = some (.waits ticket)) :
    (t.drops i).Orderly := by
  obtain ⟨rest, hold, hnew⟩ := exists_filterMap_set hi Caller.has? .gone
  obtain ⟨rest', hold', hnew'⟩ := exists_filterMap_set hi Caller.waits? .gone
  have hmem := h.mem_waiting hi
  obtain ⟨hholder, herase⟩ := h.formed.leave_of_waiting hmem
  simp only [drops, hi]
  refine ⟨h.formed.leave ticket, ?_, ?_, ?_, ?_, fun n hn => ?_, fun n hn => ?_⟩
  · simp only [hholder]
    exact hnew.trans (hold.symm.trans h.turns)
  · simp only [herase]
    have hleft : rest'.Perm (t.line.waitingTickets.erase ticket) := by
      rw [← List.erase_cons_head ticket rest']
      exact (hold'.symm.trans h.waits).erase ticket
    exact hnew'.trans hleft
  · have hcounted := h.counted
    rw [waiters, hold'.length_eq] at hcounted
    rw [waiters, hnew'.length_eq, hcounted]
    rfl
  · have hnodup := h.sorted.imp Nat.ne_of_lt
    have hgranted : ticket ∉ t.granted := fun hin =>
      (List.pairwise_append.mp hnodup).2.2 ticket hin ticket hmem rfl
    simp only [herase, TurnLine.leave_issued]
    rw [← List.erase_append_right _ hgranted, List.Nodup.erase_eq_filter hnodup, h.served,
      List.filter_filter]
    refine List.filter_congr fun n _ => ?_
    rw [Bool.eq_iff_iff]
    simp [and_comm]
  · rw [TurnLine.leave_issued]
    rcases List.mem_append.mp hn with hold | hnew
    · exact h.known n hold
    · rw [List.mem_singleton.mp hnew]
      exact h.formed.issued ticket (TurnLine.mem_tickets_of_waiting hmem)
  · simp only [hholder] at hn
    exact h.latest n hn

/-- A call gives up the turn. -/
theorem Orderly.passes (h : t.Orderly) (hi : t.callers[i]? = some (.has ticket)) :
    (t.drops i).Orderly := by
  obtain ⟨rest, hold, hnew⟩ := exists_filterMap_set hi Caller.has? .gone
  obtain ⟨rest', hold', hnew'⟩ := exists_filterMap_set hi Caller.waits? .gone
  have hone := hold.symm.trans h.turns
  have hturn := h.turn_of_has hi
  obtain ⟨hholder, hsame⟩ := TurnLine.leave_of_held hturn
  rw [hturn] at hone
  have hrest : rest = [] := List.perm_nil.mp hone.cons_inv
  simp only [drops, hi]
  refine ⟨h.formed.leave ticket, ?_, ?_, ?_, ?_, fun n hn => ?_, fun n hn => ?_⟩
  · simp only [hholder]
    rw [hrest] at hnew
    exact hnew
  · simp only [hsame]
    exact hnew'.trans (hold'.symm.trans h.waits)
  · exact h.counted.trans (hnew'.trans hold'.symm).length_eq.symm
  · simp only [hsame, TurnLine.leave_issued]
    exact h.served
  · rw [TurnLine.leave_issued]
    exact h.known n hn
  · simp only [hholder] at hn
    cases hn

/-- A call that waits and is not offered the turn goes on waiting when it is polled. -/
theorem Orderly.polls_of_ne (h : t.Orderly) (hi : t.callers[i]? = some (.waits ticket))
    (hturn : t.line.turn ≠ .offered ticket) : t.polls i = t := by
  have hmem := h.mem_waiting hi
  have hheld : t.line.turn ≠ .held ticket := fun hheld => by
    have hsorted := h.formed.sorted
    rw [TurnLine.tickets_eq, hheld] at hsorted
    exact Nat.lt_irrefl ticket
      ((List.pairwise_append.mp hsorted).2.2 ticket List.mem_cons_self ticket hmem)
  have hsame : t.line.takeUp ticket = t.line := by rw [TurnLine.takeUp, if_neg hturn]
  have hnot : ¬t.line.holds ticket = true := fun hholds => hheld (TurnLine.holds_iff.mp hholds)
  simp only [polls, hi, hsame, looks, if_neg hnot]

/-- A call that comes to a line where the turn is not free waits. -/
theorem Orderly.polls_of_busy (h : t.Orderly) (hi : t.callers[i]? = some .called)
    (hturn : t.line.turn ≠ .free) : t.polls i = t.comes i := by
  have hnot : t.line.arrive.1.holds t.line.arrive.2 = false := Bool.eq_false_iff.mpr fun hholds =>
    hturn ((TurnLine.holds_arrive_self h.formed).mp hholds)
  simp only [polls, hi, looks, TurnTaking.comes, hnot, Bool.false_eq_true, ↓reduceIte]

/-- Asking for the turn keeps the order. -/
theorem Orderly.polls (h : t.Orderly) (i : Nat) : (t.polls i).Orderly := by
  cases hi : t.callers[i]? with
  | none =>
    simp only [TurnTaking.polls, hi]
    exact h
  | some c =>
    cases c with
    | called =>
      by_cases hfree : t.line.turn = .free
      · simp only [TurnTaking.polls, hi]
        exact h.gets hi hfree
      · rw [h.polls_of_busy hi hfree]
        exact h.comes hi hfree
    | waits ticket =>
      by_cases hturn : t.line.turn = .offered ticket
      · simp only [TurnTaking.polls, hi]
        exact h.takesUp hi hturn
      · rwa [h.polls_of_ne hi hturn]
    | has ticket =>
      simp only [TurnTaking.polls, hi]
      exact h
    | gone =>
      simp only [TurnTaking.polls, hi]
      exact h

/-- Giving up keeps the order. -/
theorem Orderly.drops (h : t.Orderly) (i : Nat) : (t.drops i).Orderly := by
  cases hi : t.callers[i]? with
  | none =>
    simp only [TurnTaking.drops, hi]
    exact h
  | some c =>
    cases c with
    | called =>
      obtain ⟨rest, hold, hnew⟩ := exists_filterMap_set hi Caller.has? .gone
      obtain ⟨rest', hold', hnew'⟩ := exists_filterMap_set hi Caller.waits? .gone
      simp only [TurnTaking.drops, hi]
      exact ⟨h.formed, hnew.trans (hold.symm.trans h.turns), hnew'.trans (hold'.symm.trans h.waits),
        h.counted.trans (hnew'.trans hold'.symm).length_eq.symm, h.served, h.known, h.latest⟩
    | waits ticket => exact h.givesUp hi
    | has ticket => exact h.passes hi
    | gone =>
      simp only [TurnTaking.drops, hi]
      exact h

/-- Every move keeps callers and line in order. -/
theorem Orderly.step (h : t.Orderly) (m : TurnMove) : (t.step m).Orderly := by
  cases m with
  | call => exact h.called
  | poll i => exact h.polls i
  | drop i => exact h.drops i

/-- Callers and their line are in order after any moves. -/
theorem orderly_after (moves : List TurnMove) : (after moves).Orderly := by
  induction moves using List.reverseRecOn with
  | nil => exact orderly_start
  | append_singleton moves m ih =>
    rw [after_concat]
    exact ih.step m

/-! ## The next turn -/

/-- A call that is offered the turn is still offered it after any move but its own. -/
theorem Orderly.stays_offered (h : t.Orderly) (hi : t.callers[i]? = some (.waits ticket))
    (hturn : t.line.turn = .offered ticket) {m : TurnMove} (hpoll : m ≠ .poll i)
    (hdrop : m ≠ .drop i) : (t.step m).callers[i]? = some (.waits ticket) ∧
      (t.step m).line.turn = .offered ticket := by
  have hstill : ∀ (j : Nat) (c : Caller), j ≠ i → (t.callers.set j c)[i]? = some (.waits ticket) :=
    fun j c hj => (List.getElem?_set_ne hj).trans hi
  cases m with
  | call =>
    obtain ⟨hlt, -⟩ := List.getElem?_eq_some_iff.mp hi
    exact ⟨(List.getElem?_append_left hlt).trans hi, hturn⟩
  | poll j =>
    have hj : j ≠ i := fun hj => hpoll (congrArg _ hj)
    have hbusy : t.line.turn ≠ .free := by rw [hturn]; exact Turn.noConfusion
    rw [TurnTaking.step]
    cases hc : t.callers[j]? with
    | none =>
      simp only [TurnTaking.polls, hc]
      exact ⟨hi, hturn⟩
    | some c =>
      cases c with
      | called =>
        rw [h.polls_of_busy hc hbusy]
        exact ⟨hstill j _ hj, (TurnLine.arrive_of_ne_free hbusy).1.trans hturn⟩
      | waits n =>
        have hn : t.line.turn ≠ .offered n := fun hoffered => by
          rw [hturn, Turn.offered.injEq] at hoffered
          exact hj (h.apart hc (hoffered ▸ hi))
        rw [h.polls_of_ne hc hn]
        exact ⟨hi, hturn⟩
      | has n =>
        simp only [TurnTaking.polls, hc]
        exact ⟨hi, hturn⟩
      | gone =>
        simp only [TurnTaking.polls, hc]
        exact ⟨hi, hturn⟩
  | drop j =>
    have hj : j ≠ i := fun hj => hdrop (congrArg _ hj)
    cases hc : t.callers[j]? with
    | none =>
      simp only [TurnTaking.step, TurnTaking.drops, hc]
      exact ⟨hi, hturn⟩
    | some c =>
      cases c with
      | called =>
        simp only [TurnTaking.step, TurnTaking.drops, hc]
        exact ⟨hstill j _ hj, hturn⟩
      | waits n =>
        have hn : ticket ≠ n := fun hn => hj (h.apart hc (hn ▸ hi))
        simp only [TurnTaking.step, TurnTaking.drops, hc]
        refine ⟨hstill j _ hj, ?_⟩
        simp [TurnLine.leave, hturn, hn]
      | has n =>
        have hheld := h.turn_of_has hc
        rw [hturn] at hheld
        cases hheld
      | gone =>
        simp only [TurnTaking.step, TurnTaking.drops, hc]
        exact ⟨hi, hturn⟩

/-- A turn stays on offer until the caller asks for it or gives up. -/
theorem stays_offered_after (moves later : List TurnMove)
    (hi : (after moves).callers[i]? = some (.waits ticket))
    (hturn : (after moves).line.turn = .offered ticket)
    (hlater : ∀ m ∈ later, m ≠ .poll i ∧ m ≠ .drop i) :
    (after (moves ++ later)).callers[i]? = some (.waits ticket) ∧
      (after (moves ++ later)).line.turn = .offered ticket := by
  induction later using List.reverseRecOn with
  | nil =>
    rw [List.append_nil]
    exact ⟨hi, hturn⟩
  | append_singleton later m ih =>
    rw [List.forall_mem_append, List.forall_mem_singleton] at hlater
    obtain ⟨hwaits, hoffered⟩ := ih hlater.1
    rw [← List.append_assoc, after_concat]
    exact (orderly_after _).stays_offered hwaits hoffered hlater.2.1 hlater.2.2

/-- A call that is polled when it is offered the turn has got it. -/
theorem polls_of_offered (hi : t.callers[i]? = some (.waits ticket))
    (hturn : t.line.turn = .offered ticket) : (t.polls i).callers[i]? = some (.has ticket) := by
  obtain ⟨hlt, -⟩ := List.getElem?_eq_some_iff.mp hi
  have hholds : (t.line.takeUp ticket).holds ticket = true :=
    TurnLine.holds_takeUp_self.mpr (Or.inl hturn)
  simp only [polls, hi, looks, hholds, ↓reduceIte]
  exact List.getElem?_set_self hlt

/-- However callers come to one line, are polled, and are dropped while they wait or with the turn:
at most one of them has the turn, the one that got it last. All tickets that were given out but
those of waits that were given up are granted in rising order: the granted ones rise, and who still
waits has a higher one. The count is the number of those who wait. And when nobody has the turn, the
one with the lowest ticket gets it when it is polled next, whatever happens to the others until
then. -/
theorem turns_after (moves : List TurnMove) :
    ((after moves).holders.length ≤ 1 ∧
      ∀ n ∈ (after moves).holders, (after moves).granted.getLast? = some n) ∧
    ((after moves).granted.Pairwise (· < ·) ∧
      (∀ n ∈ (after moves).granted, ∀ m ∈ (after moves).waiters, n < m) ∧
      ∀ n, n ∈ (after moves).granted ∨ n ∈ (after moves).waiters ↔
        1 ≤ n ∧ n ≤ (after moves).line.issued ∧ n ∉ (after moves).abandoned) ∧
    ((after moves).waiting = (after moves).waiters.length ∧
      (after moves).line.waiting = (after moves).waiters.length) ∧
    ∀ (i ticket : Nat) (later : List TurnMove), (after moves).holders = [] →
      (after moves).callers[i]? = some (.waits ticket) →
      (∀ other ∈ (after moves).waiters, ticket ≤ other) →
      (∀ m ∈ later, m ≠ .poll i ∧ m ≠ .drop i) →
      (after (moves ++ later ++ [.poll i])).callers[i]? = some (.has ticket) := by
  have h := orderly_after moves
  have hsorted := List.pairwise_append.mp h.sorted
  refine ⟨⟨?_, fun n hn => h.latest n (by simpa using h.turns.subset hn)⟩,
    ⟨hsorted.1, fun n hn m hm => hsorted.2.2 n hn m (h.waits.subset hm), fun n => ?_⟩,
    ⟨h.counted, ?_⟩, fun i ticket later hnone hi hleast hlater => ?_⟩
  · rw [h.turns.length_eq]
    cases (after moves).line.turn.holder? <;> simp
  · rw [h.waits.mem_iff, ← List.mem_append, h.served, List.mem_filter, List.mem_range'_1,
      decide_eq_true_eq, Nat.add_comm 1, Nat.lt_succ_iff, and_assoc]
  · rw [h.waits.length_eq, TurnLine.length_waitingTickets]
  · have hholder : (after moves).line.turn.holder? = none := by
      have hturns := h.turns
      rw [hnone] at hturns
      simpa using hturns.symm
    have hoffered := h.formed.offered_of_least hholder (h.mem_waiting hi)
      fun other hother => hleast other (h.waits.symm.subset hother)
    obtain ⟨hwaits, hturn⟩ := stays_offered_after moves later hi hoffered hlater
    rw [after_concat]
    exact polls_of_offered hwaits hturn

end TurnTaking

end Segments
