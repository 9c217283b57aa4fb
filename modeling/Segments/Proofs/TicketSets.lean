import Mathlib.Data.Finset.Max
import Segments.Order.Pending
import Segments.Table

/-!
# One set of tickets for each name

The operations in flight can be kept as one set of tickets for each name. A set is there from the
first registration under its name to the end of the last, and again when there is another. What is
asked of the sets has the same answer as with the registrations in one list.
-/

namespace Segments

/-- The tickets of operations in flight. -/
structure TicketSets where
  /-- The last ticket given out. -/
  last : Nat
  /-- The tickets under each name; no set is empty. -/
  byName : Table String (Finset Nat)

namespace TicketSets

/-- Nothing is in flight. -/
def empty : TicketSets := ⟨0, .empty⟩

/-- The tickets under a name. -/
def tickets (s : TicketSets) (name : String) : Finset Nat := (s.byName.get? name).getD ∅

/-- Registers an operation under a name. -/
def register (s : TicketSets) (name : String) : TicketSets × Registration :=
  let ticket := s.last + 1
  (⟨ticket, s.byName.insert name (insert ticket (s.tickets name))⟩, ⟨name, ticket⟩)

/-- Ends a registration, and removes the set if this was the last one in it. -/
def release (s : TicketSets) (r : Registration) : TicketSets :=
  match s.byName.get? r.name with
  | none => s
  | some tickets =>
    let rest := tickets.erase r.ticket
    { s with byName := if rest = ∅ then s.byName.erase r.name else s.byName.insert r.name rest }

/-- The ticket of the operation accepted last. -/
def barrier (s : TicketSets) : Nat := s.last

/-- The number of operations in flight that concern a name. -/
def count (s : TicketSets) (name : String) : Nat :=
  match s.byName.get? name with
  | none => 0
  | some tickets => tickets.card

/-- Whether the first operation in flight that concerns a name was accepted by a barrier. -/
def hasUpTo (s : TicketSets) (name : String) (barrier : Nat) : Bool :=
  match s.byName.get? name with
  | none => false
  | some tickets => decide (tickets.min ≤ WithTop.some barrier)

/-- The sets hold the registrations of a list. -/
structure Holds (s : TicketSets) (p : Pending) : Prop where
  /-- The same tickets were given out. -/
  last : s.last = p.last
  /-- A ticket is in the set of its name. -/
  mem_tickets : ∀ name ticket, ticket ∈ s.tickets name ↔ ⟨name, ticket⟩ ∈ p.live
  /-- No set is empty. -/
  nonempty : ∀ name, s.byName.get? name ≠ some ∅
  /-- No registration is there twice. -/
  nodup : p.live.Nodup
  /-- The tickets were given out. -/
  issued : ∀ r ∈ p.live, r.ticket ≤ p.last

variable {s : TicketSets} {p : Pending}

theorem holds_empty : empty.Holds .empty where
  last := rfl
  mem_tickets name ticket := by simp [tickets, empty, Pending.empty]
  nonempty name := by simp [empty]
  nodup := .nil
  issued r hr := by cases hr

theorem tickets_register (s : TicketSets) (name other : String) :
    (s.register name).1.tickets other =
      if other = name then insert (s.last + 1) (s.tickets name) else s.tickets other := by
  rw [tickets, register, Table.get?_insert]
  split <;> rfl

/-- One more registration is held by its set. -/
theorem Holds.register (h : s.Holds p) (name : String) :
    (s.register name).1.Holds (p.register name).1 ∧
      (s.register name).2 = (p.register name).2 := by
  have hfresh : ∀ r ∈ p.live, r ≠ ⟨name, p.last + 1⟩ := by
    rintro r hr rfl
    exact Nat.not_succ_le_self _ (h.issued _ hr)
  refine ⟨⟨congrArg (· + 1) h.last, fun other ticket => ?_, fun other => ?_, ?_, fun r hr => ?_⟩,
    congrArg (fun last => Registration.mk name (last + 1)) h.last⟩
  · rw [tickets_register, Pending.register, List.mem_append, List.mem_singleton,
      ← h.mem_tickets, h.last]
    by_cases hother : other = name
    · simp [hother, or_comm]
    · simp [hother]
  · rw [TicketSets.register, Table.get?_insert]
    split
    · simp
    · exact h.nonempty other
  · exact List.nodup_append.mpr ⟨h.nodup, List.nodup_singleton _, fun r hr r' hr' => by
      rw [List.mem_singleton.mp hr']
      exact hfresh r hr⟩
  · rcases List.mem_append.mp hr with hold | hnew
    · exact Nat.le_succ_of_le (h.issued r hold)
    · rw [List.mem_singleton.mp hnew]
      exact Nat.le_refl _

theorem tickets_release (s : TicketSets) (r : Registration) (name : String) :
    (s.release r).tickets name =
      if name = r.name then (s.tickets name).erase r.ticket else s.tickets name := by
  unfold release
  cases hr : s.byName.get? r.name with
  | none =>
    simp only
    split
    · next hname => simp [tickets, hname, hr]
    · rfl
  | some old =>
    simp only [tickets]
    by_cases hname : name = r.name
    · subst hname
      split
      · next hempty => simp [Table.get?_erase, hr, hempty]
      · simp [Table.get?_insert, hr]
    · split
      · simp [Table.get?_erase, hname]
      · simp [Table.get?_insert, hname]

/-- A registration that is ended is held no more. -/
theorem Holds.release (h : s.Holds p) (r : Registration) : (s.release r).Holds (p.release r) where
  last := by
    rw [TicketSets.release]
    split <;> exact h.last
  mem_tickets name ticket := by
    rw [tickets_release, Pending.release, List.mem_filter, ← h.mem_tickets, bne_iff_ne]
    by_cases hname : name = r.name
    · rw [if_pos hname, Finset.mem_erase, and_comm]
      refine and_congr_right fun _ => not_congr ⟨fun ht => ?_, fun hr => ?_⟩
      · rw [ht, hname]
      · exact congrArg Registration.ticket hr
    · rw [if_neg hname]
      exact (and_iff_left fun hr => hname (congrArg Registration.name hr)).symm
  nonempty name := by
    unfold TicketSets.release
    split
    · exact h.nonempty name
    · simp only
      split
      · rw [Table.get?_erase]
        split
        · simp
        · exact h.nonempty name
      · next hrest =>
        rw [Table.get?_insert]
        split
        · simpa using hrest
        · exact h.nonempty name
  nodup := h.nodup.filter _
  issued x hx := h.issued x (List.mem_filter.mp hx).1

theorem count_eq_card (s : TicketSets) (name : String) : s.count name = (s.tickets name).card := by
  unfold count tickets
  cases s.byName.get? name <;> rfl

/-- The number of operations in flight is the number of registrations. -/
theorem Holds.count_eq (h : s.Holds p) (name : String) : s.count name = p.count name := by
  have hset : s.tickets name =
      ((p.live.filter fun r => r.name == name).map Registration.ticket).toFinset := by
    ext ticket
    rw [h.mem_tickets, List.mem_toFinset, List.mem_map]
    constructor
    · intro hmem
      exact ⟨_, List.mem_filter.mpr ⟨hmem, beq_self_eq_true name⟩, rfl⟩
    · rintro ⟨r, hr, rfl⟩
      obtain ⟨hlive, hname⟩ := List.mem_filter.mp hr
      rw [← eq_of_beq hname]
      exact hlive
  have hnodup : ((p.live.filter fun r => r.name == name).map Registration.ticket).Nodup := by
    refine List.Nodup.map_on ?_ (h.nodup.filter _)
    intro r hr r' hr' hticket
    have hname := eq_of_beq (List.mem_filter.mp hr).2
    have hname' := eq_of_beq (List.mem_filter.mp hr').2
    cases r
    cases r'
    simp_all
  rw [count_eq_card, hset, List.toFinset_card_of_nodup hnodup, List.length_map, Pending.count]

theorem min_le_iff {set : Finset Nat} {barrier : Nat} :
    set.min ≤ WithTop.some barrier ↔ ∃ ticket ∈ set, ticket ≤ barrier := by
  constructor
  · intro h
    cases hmin : set.min with
    | top => simp [hmin] at h
    | coe first => exact ⟨first, Finset.mem_of_min hmin, by simpa [hmin] using h⟩
  · rintro ⟨ticket, hmem, hle⟩
    exact (Finset.min_le hmem).trans (WithTop.coe_le_coe.mpr hle)

/-- An early operation is in flight exactly where a registration has a ticket up to the barrier. -/
theorem Holds.hasUpTo_eq (h : s.Holds p) (name : String) (barrier : Nat) :
    s.hasUpTo name barrier = !p.isClear name barrier := by
  have hsome : s.hasUpTo name barrier = true ↔ ∃ ticket ∈ s.tickets name, ticket ≤ barrier := by
    unfold hasUpTo tickets
    cases s.byName.get? name with
    | none => simp
    | some set => exact decide_eq_true_iff.trans min_le_iff
  rw [Bool.eq_iff_iff, hsome, Pending.isClear, Bool.not_eq_true', List.all_eq_false]
  constructor
  · rintro ⟨ticket, hmem, hle⟩
    exact ⟨_, (h.mem_tickets name ticket).mp hmem, by simpa using hle⟩
  · rintro ⟨r, hr, hearly⟩
    simp only [bne_iff_ne, ne_eq, Bool.or_eq_true, decide_eq_true_eq, not_or, not_not,
      Nat.not_lt] at hearly
    exact ⟨r.ticket, (h.mem_tickets name r.ticket).mpr (hearly.1 ▸ hr), hearly.2⟩

end TicketSets

end Segments
