import Mathlib.Data.List.Induction
import Segments.Proofs.Queues
import Segments.Proofs.TicketSets

/-!
# Waiting for what was accepted before

Operations are registered and end in any order, and others wait for the early ones among them. An
operation ends in two steps: its registration is removed, and then all who wait are told. Who waits
listens before it looks, so that what ends behind its look is not missed. It goes on exactly from a
look at which no registration of its name is left up to its barrier, whatever else is registered.
-/

namespace Segments

/-- How far the end of a registration has come. -/
inductive GuardStage where
  /-- The operation is in flight. -/
  | live
  /-- The registration is removed, but nobody was told. -/
  | removed
  /-- Everybody was told. -/
  | gone
  deriving DecidableEq, Repr

/-- A registration, from the acceptance of its operation on. -/
structure Guard where
  /-- The registration. -/
  registration : Registration
  /-- How far its end has come. -/
  stage : GuardStage
  deriving DecidableEq, Repr

/-- How far somebody has come who waits for earlier operations. -/
inductive WaitStage where
  /-- It is about to listen. -/
  | begins
  /-- It listens and is about to look. -/
  | listens (told : Bool)
  /-- It saw an early operation in flight and waits until it is told of an end. -/
  | waits (told : Bool)
  /-- It goes on. -/
  | passed
  /-- It was given up. -/
  | dropped
  deriving DecidableEq, Repr

/-- Somebody who waits for earlier operations. -/
structure Waiter where
  /-- The name that the operations concern. -/
  name : String
  /-- The ticket of the last one of them. -/
  barrier : Nat
  /-- How far it has come. -/
  stage : WaitStage
  deriving DecidableEq, Repr

/-- What can happen where operations are registered and waited for. -/
inductive LobbyMove where
  /-- An operation is registered under a name. -/
  | register (name : String)
  /-- An operation ends: its registration is removed. -/
  | remove (j : Nat)
  /-- An operation has ended: all who wait are told. -/
  | tell (j : Nat)
  /-- Somebody waits for the operations on a name up to a barrier. -/
  | await (name : String) (barrier : Nat)
  /-- Somebody who waits takes a step. -/
  | proceed (i : Nat)
  /-- Somebody waits no more. -/
  | giveUp (i : Nat)
  deriving DecidableEq

/-- The registrations of operations with those who wait for them. -/
structure Lobby where
  /-- The registrations in one list. -/
  pending : Pending
  /-- The registrations in one set for each name. -/
  sets : TicketSets
  /-- All registrations there ever were, first things first. -/
  guards : List Guard
  /-- All who ever waited, first things first. -/
  waiters : List Waiter

namespace Guard

/-- The registration of an operation in flight. -/
def live? (g : Guard) : Option Registration :=
  match g.stage with
  | .live => some g.registration
  | _ => none

end Guard

namespace Waiter

/-- What one step of somebody who waits does. -/
def proceed (s : TicketSets) (w : Waiter) : Waiter :=
  { w with
    stage :=
      match w.stage with
      | .begins => .listens false
      | .listens told => if s.hasUpTo w.name w.barrier then .waits told else .passed
      | .waits true => .begins
      | stage => stage }

/-- Whoever listens is told of an end. -/
def told (w : Waiter) : Waiter :=
  { w with
    stage :=
      match w.stage with
      | .listens _ => .listens true
      | .waits _ => .waits true
      | stage => stage }

end Waiter

namespace Lobby

/-- Nothing was registered, and nobody waits. -/
def start : Lobby := ⟨.empty, .empty, [], []⟩

/-- What is left after one move. -/
def step (l : Lobby) : LobbyMove → Lobby
  | .register name =>
    { l with
      pending := (l.pending.register name).1
      sets := (l.sets.register name).1
      guards := l.guards ++ [⟨(l.sets.register name).2, .live⟩] }
  | .remove j =>
    match l.guards[j]? with
    | some ⟨r, .live⟩ =>
      { l with
        pending := l.pending.release r
        sets := l.sets.release r
        guards := l.guards.set j ⟨r, .removed⟩ }
    | _ => l
  | .tell j =>
    match l.guards[j]? with
    | some ⟨r, .removed⟩ =>
      { l with guards := l.guards.set j ⟨r, .gone⟩, waiters := l.waiters.map Waiter.told }
    | _ => l
  | .await name barrier => { l with waiters := l.waiters ++ [⟨name, barrier, .begins⟩] }
  | .proceed i => { l with waiters := l.waiters.modify i (Waiter.proceed l.sets) }
  | .giveUp i => { l with waiters := l.waiters.modify i fun w => { w with stage := .dropped } }

/-- What is left after some moves. -/
def after (moves : List LobbyMove) : Lobby := moves.foldl step start

/-- The last move is made last. -/
theorem after_concat (moves : List LobbyMove) (m : LobbyMove) :
    after (moves ++ [m]) = (after moves).step m := List.foldl_append

/-- The registrations of operations in flight. -/
def live (l : Lobby) : List Registration := l.guards.filterMap Guard.live?

/-- No operation on a name is in flight up to a barrier. -/
def Clear (l : Lobby) (name : String) (barrier : Nat) : Prop :=
  ∀ r ∈ l.live, r.name = name → barrier < r.ticket

/-- How registrations and those who wait for them stand to each other. -/
structure Orderly (l : Lobby) : Prop where
  /-- The sets hold what the list holds. -/
  holds : l.sets.Holds l.pending
  /-- Tickets are given out one after another. -/
  tickets : l.guards.map (fun g => g.registration.ticket) = List.range' 1 l.pending.last
  /-- The operations in flight are registered. -/
  live : l.live.Perm l.pending.live
  /-- Whoever waits to be told waits for an operation in flight, or is going to be told. -/
  heard : ∀ w ∈ l.waiters, w.stage = .waits false →
    ¬l.Clear w.name w.barrier ∨ ∃ g ∈ l.guards, g.stage = .removed

variable {l : Lobby} {i j : Nat} {w : Waiter} {name : String} {barrier : Nat}

/-- What is asked of the sets says whether the operations in flight are clear of a barrier. -/
theorem Orderly.hasUpTo_iff (h : l.Orderly) (name : String) (barrier : Nat) :
    l.sets.hasUpTo name barrier = false ↔ l.Clear name barrier := by
  rw [h.holds.hasUpTo_eq, Bool.not_eq_false', Pending.isClear, List.all_eq_true]
  refine ⟨fun hall r hr hname => ?_, fun hclear r hr => ?_⟩
  · simpa [hname] using hall r (h.live.subset hr)
  · by_cases hname : r.name = name
    · simpa [hname] using hclear r (h.live.symm.subset hr) hname
    · simp [hname]

theorem orderly_start : start.Orderly where
  holds := TicketSets.holds_empty
  tickets := rfl
  live := .refl _
  heard w hw := by cases hw

/-- After a modification an element was there before, or is a modified one. -/
theorem mem_modify_cases {α : Type} {l : List α} {i : Nat} {f : α → α} {b : α}
    (h : b ∈ l.modify i f) : b ∈ l ∨ ∃ c ∈ l, b = f c := by
  obtain ⟨k, hk⟩ := List.mem_iff_getElem?.mp h
  rw [List.getElem?_modify] at hk
  split at hk
  · obtain ⟨c, hc, hb⟩ := Option.map_eq_some_iff.mp hk
    exact Or.inr ⟨c, List.mem_of_getElem? hc, hb.symm⟩
  · obtain ⟨c, hc, hb⟩ := Option.map_eq_some_iff.mp hk
    exact Or.inl (hb ▸ List.mem_of_getElem? hc)

/-- Who waits to be told after a step waited before, or has just seen an early operation. -/
theorem hasUpTo_of_proceed {s : TicketSets} (h : (w.proceed s).stage = .waits false) :
    w.stage = .waits false ∨ s.hasUpTo w.name w.barrier = true := by
  unfold Waiter.proceed at h
  cases hstage : w.stage with
  | listens told =>
    simp only [hstage] at h
    split at h
    · next hup => exact Or.inr hup
    · cases h
  | waits told => cases told <;> simp_all
  | _ => simp [hstage] at h

/-- Who was told need not be told any more. -/
theorem told_stage_ne (w : Waiter) : w.told.stage ≠ .waits false := by
  unfold Waiter.told
  cases w.stage <;> simp

/-- An operation is registered. -/
theorem Orderly.register (h : l.Orderly) (name : String) : (l.step (.register name)).Orderly := by
  obtain ⟨hholds, hsame⟩ := h.holds.register name
  have hlive : (l.step (.register name)).live = l.live ++ [(l.pending.register name).2] := by
    rw [← hsame, Lobby.live, step, List.filterMap_append]
    rfl
  refine ⟨hholds, ?_, ?_, fun w hw hstage => ?_⟩
  · simp only [step, List.map_append, h.tickets]
    rw [hsame]
    simp only [Pending.register, List.range'_1_concat, Nat.add_comm 1]
    rfl
  · rw [hlive]
    exact h.live.append_right _
  · rcases h.heard w hw hstage with hnot | ⟨g, hg, hremoved⟩
    · refine Or.inl fun hclear => hnot fun r hr => ?_
      exact hclear r (hlive ▸ List.mem_append_left _ hr)
    · exact Or.inr ⟨g, List.mem_append_left _ hg, hremoved⟩

/-- What is read off the registrations is the same when the end of one goes on. -/
theorem map_registration_set {g : Guard} (hj : l.guards[j]? = some g) (stage : GuardStage) :
    (l.guards.set j ⟨g.registration, stage⟩).map (fun g => g.registration.ticket) =
      l.guards.map fun g => g.registration.ticket := by
  rw [List.map_set]
  exact set_of_getElem? (by rw [List.getElem?_map, hj]; rfl)

/-- A registration is removed. -/
theorem Orderly.remove (h : l.Orderly) (j : Nat) : (l.step (.remove j)).Orderly := by
  simp only [Lobby.step]
  split
  · next r hj =>
    obtain ⟨rest, hold, hnew⟩ := exists_filterMap_set hj Guard.live? ⟨r, .removed⟩
    obtain ⟨hlt, -⟩ := List.getElem?_eq_some_iff.mp hj
    refine ⟨h.holds.release r, (map_registration_set hj _).trans h.tickets, ?_,
      fun w hw hstage => Or.inr ⟨_, List.mem_set hlt _, rfl⟩⟩
    have herase : (l.pending.release r).live = l.pending.live.erase r :=
      (h.holds.nodup.erase_eq_filter r).symm
    have hrest : rest.Perm (l.pending.live.erase r) := by
      rw [← List.erase_cons_head r rest]
      exact (hold.symm.trans h.live).erase r
    rw [herase]
    exact hnew.trans hrest
  · exact h

/-- All who wait are told. -/
theorem Orderly.tell (h : l.Orderly) (j : Nat) : (l.step (.tell j)).Orderly := by
  simp only [Lobby.step]
  split
  · next r hj =>
    obtain ⟨rest, hold, hnew⟩ := exists_filterMap_set hj Guard.live? ⟨r, .gone⟩
    refine ⟨h.holds, (map_registration_set hj _).trans h.tickets,
      hnew.trans (hold.symm.trans h.live), fun w hw hstage => ?_⟩
    obtain ⟨w', -, rfl⟩ := List.mem_map.mp hw
    exact absurd hstage (told_stage_ne w')
  · exact h

/-- Every move keeps registrations and those who wait in order. -/
theorem Orderly.step (h : l.Orderly) (m : LobbyMove) : (l.step m).Orderly := by
  cases m with
  | register name => exact h.register name
  | remove j => exact h.remove j
  | tell j => exact h.tell j
  | await name barrier =>
    refine ⟨h.holds, h.tickets, h.live, fun w hw hstage => ?_⟩
    rcases List.mem_append.mp hw with hold | hnew
    · exact h.heard w hold hstage
    · rw [List.mem_singleton.mp hnew] at hstage
      cases hstage
  | proceed i =>
    refine ⟨h.holds, h.tickets, h.live, fun w hw hstage => ?_⟩
    rcases mem_modify_cases hw with hold | ⟨w', hw', rfl⟩
    · exact h.heard w hold hstage
    · rcases hasUpTo_of_proceed hstage with hsame | hup
      · exact h.heard w' hw' hsame
      · refine Or.inl fun hclear => ?_
        exact Bool.false_ne_true (((h.hasUpTo_iff _ _).mpr hclear).symm.trans hup)
  | giveUp i =>
    refine ⟨h.holds, h.tickets, h.live, fun w hw hstage => ?_⟩
    rcases mem_modify_cases hw with hold | ⟨w', -, rfl⟩
    · exact h.heard w hold hstage
    · cases hstage

/-- Whatever moves are made, the lobby is in order. -/
theorem orderly_after (moves : List LobbyMove) : (after moves).Orderly := by
  induction moves using List.reverseRecOn with
  | nil => exact orderly_start
  | append_singleton moves m ih =>
    rw [after_concat]
    exact ih.step m

/-! ## Tickets -/

/-- No guard is forgotten. -/
theorem length_guards_step (l : Lobby) (m : LobbyMove) :
    l.guards.length ≤ (l.step m).guards.length := by
  cases m with
  | register name => simp [Lobby.step]
  | remove j =>
    simp only [Lobby.step]
    split <;> simp
  | tell j =>
    simp only [Lobby.step]
    split <;> simp
  | _ => exact Nat.le_refl _

/-- No guard is forgotten by later moves. -/
theorem length_guards_after (moves later : List LobbyMove) :
    (after moves).guards.length ≤ (after (moves ++ later)).guards.length := by
  induction later using List.reverseRecOn with
  | nil => rw [List.append_nil]
  | append_singleton later m ih =>
    rw [← List.append_assoc, after_concat]
    exact Nat.le_trans ih (length_guards_step _ m)

/-- The tickets are one, two, three and so on, in the order of the registrations. -/
theorem Orderly.ticket_eq (h : l.Orderly) {g : Guard} (hj : l.guards[j]? = some g) :
    g.registration.ticket = j + 1 := by
  have hticket : (l.guards.map fun g => g.registration.ticket)[j]? =
      some g.registration.ticket := by
    rw [List.getElem?_map, hj]
    rfl
  have hlt : j < l.pending.last := by
    have hsome := (List.getElem?_eq_some_iff.mp hticket).1
    rwa [h.tickets, List.length_range'] at hsome
  rw [h.tickets, List.getElem?_range' hlt, Option.some.injEq] at hticket
  omega

/-- There was a guard for every ticket. -/
theorem Orderly.length_guards (h : l.Orderly) : l.guards.length = l.pending.last := by
  have hlength := congrArg List.length h.tickets
  rwa [List.length_map, List.length_range'] at hlength

/-! ## Looking -/

/-- What a move does to somebody who waits and does not give up. -/
theorem waiters_step (l : Lobby) {m : LobbyMove} (hi : l.waiters[i]? = some w)
    (hm : m ≠ .giveUp i) : ∃ w', (l.step m).waiters[i]? = some w' ∧
      ((m = .proceed i ∧ w' = w.proceed l.sets) ∨
        (m ≠ .proceed i ∧ (w' = w.told ∨
          (w' = w ∧ ∀ j r, m = .tell j → l.guards[j]? ≠ some ⟨r, .removed⟩)))) := by
  have hother : ∀ (k : Nat) (f : Waiter → Waiter), k ≠ i →
      (l.waiters.modify k f)[i]? = some w := fun k f hk => by
    simp [hk, hi]
  obtain ⟨hlt, -⟩ := List.getElem?_eq_some_iff.mp hi
  cases m with
  | register name => exact ⟨w, hi, Or.inr ⟨nofun, Or.inr ⟨rfl, nofun⟩⟩⟩
  | await name barrier =>
    exact ⟨w, (List.getElem?_append_left hlt).trans hi, Or.inr ⟨nofun, Or.inr ⟨rfl, nofun⟩⟩⟩
  | remove j =>
    refine ⟨w, ?_, Or.inr ⟨nofun, Or.inr ⟨rfl, nofun⟩⟩⟩
    simp only [Lobby.step]
    split <;> exact hi
  | tell j =>
    simp only [Lobby.step]
    split
    · refine ⟨w.told, ?_, Or.inr ⟨nofun, Or.inl rfl⟩⟩
      rw [List.getElem?_map, hi]
      rfl
    · next hnot =>
      refine ⟨w, hi, Or.inr ⟨nofun, Or.inr ⟨rfl, ?_⟩⟩⟩
      rintro j' r hj'
      cases hj'
      exact hnot r
  | proceed k =>
    by_cases hk : k = i
    · subst hk
      refine ⟨w.proceed l.sets, ?_, Or.inl ⟨rfl, rfl⟩⟩
      simp [Lobby.step, hi]
    · refine ⟨w, hother k _ hk, Or.inr ⟨?_, Or.inr ⟨rfl, nofun⟩⟩⟩
      rw [ne_eq, LobbyMove.proceed.injEq]
      exact hk
  | giveUp k =>
    have hk : k ≠ i := fun hk => hm (hk ▸ rfl)
    exact ⟨w, hother k _ hk, Or.inr ⟨nofun, Or.inr ⟨rfl, nofun⟩⟩⟩

/-- Whoever goes on with a move has looked and seen no early operation. -/
theorem Orderly.clear_of_passed (h : l.Orderly) {m : LobbyMove} {w' : Waiter}
    (hi : l.waiters[i]? = some w) (hw : w.stage ≠ .passed)
    (hi' : (l.step m).waiters[i]? = some w') (hw' : w'.stage = .passed) :
    l.Clear w.name w.barrier ∧ m = .proceed i := by
  by_cases hm : m = .giveUp i
  · subst hm
    simp only [Lobby.step, List.getElem?_modify, ↓reduceIte, hi, Option.map_eq_map,
      Option.map_some, Option.some.injEq] at hi'
    rw [← hi'] at hw'
    cases hw'
  · obtain ⟨w'', hi'', hstep⟩ := l.waiters_step hi hm
    obtain rfl := Option.some.inj (hi'.symm.trans hi'')
    rcases hstep with ⟨rfl, rfl⟩ | ⟨-, rfl | ⟨rfl, -⟩⟩
    · refine ⟨(h.hasUpTo_iff _ _).mp ?_, rfl⟩
      unfold Waiter.proceed at hw'
      cases hstage : w.stage with
      | listens told =>
        simp only [hstage] at hw'
        split at hw'
        · cases hw'
        · next hup => exact Bool.eq_false_iff.mpr hup
      | waits told => cases told <;> simp [hstage] at hw'
      | passed => exact absurd hstage hw
      | _ => simp [hstage] at hw'
    · unfold Waiter.told at hw'
      cases hstage : w.stage <;> simp_all
    · exact absurd hw' hw

/-! ## Nobody is held back -/

/-- After a move nothing is in flight but what was before, and what is registered with the move. -/
theorem live_step (h : l.Orderly) {m : LobbyMove} {r : Registration}
    (hr : r ∈ (l.step m).live) : r ∈ l.live ∨ r.ticket = l.pending.last + 1 := by
  have hset : ∀ {j : Nat} {g : Guard} (g' : Guard), l.guards[j]? = some g → g'.live? = none →
      r ∈ (l.guards.set j g').filterMap Guard.live? → r ∈ l.live := by
    intro j g g' hj hnone hin
    obtain ⟨rest, hold, hnew⟩ := exists_filterMap_set hj Guard.live? g'
    rw [hnone] at hnew
    exact hold.symm.subset (List.mem_append_right _ (hnew.subset hin))
  cases m with
  | register name =>
    simp only [Lobby.live, Lobby.step, List.filterMap_append, List.mem_append] at hr
    refine hr.imp id fun hnew => ?_
    rw [List.mem_singleton.mp hnew, ← h.holds.last]
    rfl
  | remove j =>
    simp only [Lobby.step] at hr
    split at hr
    · next r' hj => exact Or.inl (hset ⟨r', .removed⟩ hj rfl hr)
    · exact Or.inl hr
  | tell j =>
    simp only [Lobby.step] at hr
    split at hr
    · next r' hj => exact Or.inl (hset ⟨r', .gone⟩ hj rfl hr)
    · exact Or.inl hr
  | _ => exact Or.inl hr

/-- Once no early operation is left, none ever is again. -/
theorem clear_after (moves later : List LobbyMove) (hclear : (after moves).Clear name barrier)
    (hbarrier : barrier ≤ (after moves).pending.last) :
    (after (moves ++ later)).Clear name barrier := by
  induction later using List.reverseRecOn with
  | nil => rwa [List.append_nil]
  | append_singleton later m ih =>
    rw [← List.append_assoc, after_concat]
    intro r hr hname
    have h := orderly_after (moves ++ later)
    rcases live_step h hr with hold | hnew
    · exact ih r hold hname
    · have hmono := length_guards_after moves later
      rw [h.length_guards, (orderly_after moves).length_guards] at hmono
      omega

/-- No early operation is in flight at any moment while some moves are made. -/
def ClearAlong (moves later : List LobbyMove) (name : String) (barrier : Nat) : Prop :=
  ∀ part, part <+: later → (after (moves ++ part)).Clear name barrier

/-- What is clear along moves is clear along fewer. -/
theorem ClearAlong.of_concat {moves later : List LobbyMove} {m : LobbyMove}
    (h : ClearAlong moves (later ++ [m]) name barrier) : ClearAlong moves later name barrier :=
  fun part hpart => h part (hpart.trans (List.prefix_append later [m]))

end Lobby

namespace WaitStage

/-- The number of steps before whoever waits goes on, if it is not held back. -/
def stepsLeft : WaitStage → Nat
  | begins => 2
  | listens _ => 1
  | waits _ => 3
  | passed | dropped => 0

/-- Whoever waits goes on with its next steps, for it was not given up and need not be told. -/
def Goes (stage : WaitStage) : Prop := stage ≠ .dropped ∧ stage ≠ .waits false

/-- At most three steps are left, and none only to whoever passed. -/
theorem Goes.stepsLeft_le {stage : WaitStage} (h : stage.Goes) :
    stage.stepsLeft ≤ 3 ∧ (stage.stepsLeft = 0 → stage = .passed) := by
  cases stage with
  | dropped => exact absurd rfl h.1
  | _ => simp [stepsLeft]

end WaitStage

namespace Lobby

variable {l : Lobby} {i : Nat} {w : Waiter} {name : String} {barrier : Nat}

/-- A step that nothing holds back brings whoever waits closer to its end. -/
theorem goes_proceed {s : TicketSets} (hclear : s.hasUpTo w.name w.barrier = false)
    (hw : w.stage.Goes) : (w.proceed s).stage.Goes ∧
      (w.proceed s).stage.stepsLeft = w.stage.stepsLeft - 1 := by
  obtain ⟨hdropped, hwaits⟩ := hw
  unfold Waiter.proceed WaitStage.Goes
  cases hstage : w.stage with
  | waits told =>
    cases told with
    | true => simp [WaitStage.stepsLeft]
    | false => exact absurd hstage hwaits
  | dropped => exact absurd hstage hdropped
  | _ => simp [hclear, WaitStage.stepsLeft]

/-- Who is told goes on with as many steps left. -/
theorem goes_told (hw : w.stage ≠ .dropped) : w.told.stage.Goes ∧
    w.told.stage.stepsLeft = w.stage.stepsLeft := by
  unfold Waiter.told WaitStage.Goes
  cases hstage : w.stage with
  | dropped => exact absurd hstage hw
  | _ => simp [WaitStage.stepsLeft]

/-- What nothing holds back goes on with each step of its own. -/
theorem goes_step (h : l.Orderly) (hi : l.waiters[i]? = some w) (hw : w.stage.Goes)
    (hclear : l.Clear w.name w.barrier) {m : LobbyMove} (hm : m ≠ .giveUp i) :
    ∃ w', (l.step m).waiters[i]? = some w' ∧ (w'.name = w.name ∧ w'.barrier = w.barrier) ∧
      w'.stage.Goes ∧
        w'.stage.stepsLeft = w.stage.stepsLeft - if m = .proceed i then 1 else 0 := by
  obtain ⟨w', hi', hstep⟩ := l.waiters_step hi hm
  refine ⟨w', hi', ?_⟩
  rcases hstep with ⟨rfl, rfl⟩ | ⟨hm', rfl | ⟨rfl, -⟩⟩
  · rw [if_pos rfl]
    exact ⟨⟨rfl, rfl⟩, goes_proceed ((h.hasUpTo_iff _ _).mpr hclear) hw⟩
  · rw [if_neg hm']
    exact ⟨⟨rfl, rfl⟩, goes_told hw.1⟩
  · rw [if_neg hm']
    exact ⟨⟨rfl, rfl⟩, hw, rfl⟩

/-- Whoever goes on still does after moves in which nothing holds it back. -/
theorem goes_after (moves later : List LobbyMove) (hi : (after moves).waiters[i]? = some w)
    (hw : w.stage.Goes) (hclear : ClearAlong moves later w.name w.barrier)
    (hgive : .giveUp i ∉ later) : ∃ w', (after (moves ++ later)).waiters[i]? = some w' ∧
      (w'.name = w.name ∧ w'.barrier = w.barrier) ∧ w'.stage.Goes ∧
        w'.stage.stepsLeft = w.stage.stepsLeft - later.count (.proceed i) := by
  induction later using List.reverseRecOn with
  | nil => exact ⟨w, by rwa [List.append_nil], ⟨rfl, rfl⟩, hw, rfl⟩
  | append_singleton later m ih =>
    rw [List.mem_append, List.mem_singleton, not_or] at hgive
    obtain ⟨w', hi', ⟨hname, hbarrier⟩, hw', hleft⟩ := ih hclear.of_concat hgive.1
    have hnow := hclear later (List.prefix_append later [m])
    rw [← hname, ← hbarrier] at hnow
    obtain ⟨w'', hi'', ⟨hname', hbarrier'⟩, hw'', hleft'⟩ :=
      goes_step (orderly_after _) hi' hw' hnow (Ne.symm hgive.2)
    refine ⟨w'', ?_, ⟨hname'.trans hname, hbarrier'.trans hbarrier⟩, hw'', ?_⟩
    · rwa [← List.append_assoc, after_concat]
    · rw [hleft', hleft, List.count_append, List.count_singleton]
      simp only [beq_iff_eq]
      split <;> omega

/-- Who is going to tell is going to after any move but that. -/
theorem removed_step {j : Nat} {r : Registration} (hj : l.guards[j]? = some ⟨r, .removed⟩)
    {m : LobbyMove} (hm : m ≠ .tell j) : (l.step m).guards[j]? = some ⟨r, .removed⟩ := by
  obtain ⟨hlt, -⟩ := List.getElem?_eq_some_iff.mp hj
  cases m with
  | register name => exact (List.getElem?_append_left hlt).trans hj
  | remove k =>
    simp only [step]
    split
    · next r' hk =>
      have hne : k ≠ j := fun hkj => by
        rw [hkj, hj] at hk
        cases hk
      exact (List.getElem?_set_ne hne).trans hj
    · exact hj
  | tell k =>
    have hne : k ≠ j := fun hkj => hm (hkj ▸ rfl)
    simp only [step]
    split
    · exact (List.getElem?_set_ne hne).trans hj
    · exact hj
  | _ => exact hj

/-- When all who were going to tell have told, whoever waits need not be told any more. -/
theorem goes_after_told (moves first : List LobbyMove)
    (hi : (after moves).waiters[i]? = some w) (hw : w.stage ≠ .dropped)
    (hclear : ClearAlong moves first w.name w.barrier) (hgive : .giveUp i ∉ first)
    (htold : ∀ j r, (after moves).guards[j]? = some ⟨r, .removed⟩ → .tell j ∈ first) :
    ∃ w', (after (moves ++ first)).waiters[i]? = some w' ∧
      (w'.name = w.name ∧ w'.barrier = w.barrier) ∧ w'.stage.Goes := by
  -- until then whoever is not told waits for one that was going to tell from the beginning
  have hwaits : ∃ w', (after (moves ++ first)).waiters[i]? = some w' ∧
      (w'.name = w.name ∧ w'.barrier = w.barrier) ∧ (w'.stage.Goes ∨
        w'.stage = .waits false ∧ ∃ j r, (after moves).guards[j]? = some ⟨r, .removed⟩ ∧
          (after (moves ++ first)).guards[j]? = some ⟨r, .removed⟩ ∧ .tell j ∉ first) := by
    clear htold
    induction first using List.reverseRecOn with
    | nil =>
      rw [List.append_nil]
      refine ⟨w, hi, ⟨rfl, rfl⟩, ?_⟩
      by_cases hstage : w.stage = .waits false
      · have hnow := hclear [] List.nil_prefix
        rw [List.append_nil] at hnow
        rcases (orderly_after moves).heard w (List.mem_of_getElem? hi) hstage with hnot | hsome
        · exact absurd hnow hnot
        · obtain ⟨⟨r, stage⟩, hg, rfl⟩ := hsome
          obtain ⟨j, hj⟩ := List.mem_iff_getElem?.mp hg
          exact Or.inr ⟨hstage, j, r, hj, hj, List.not_mem_nil⟩
      · exact Or.inl ⟨hw, hstage⟩
    | append_singleton first m ih =>
      rw [List.mem_append, List.mem_singleton, not_or] at hgive
      obtain ⟨w', hi', ⟨hname, hbarrier⟩, hstage⟩ := ih hclear.of_concat hgive.1
      have hm := Ne.symm hgive.2
      rw [← List.append_assoc, after_concat]
      rcases hstage with hgoes | ⟨hstage, j, r, hj, hj', htell⟩
      · have hnow := hclear first (List.prefix_append first [m])
        rw [← hname, ← hbarrier] at hnow
        obtain ⟨w'', hi'', ⟨hname', hbarrier'⟩, hgoes', -⟩ :=
          goes_step (orderly_after _) hi' hgoes hnow hm
        exact ⟨w'', hi'', ⟨hname'.trans hname, hbarrier'.trans hbarrier⟩, Or.inl hgoes'⟩
      · obtain ⟨w'', hi'', hstep⟩ := waiters_step _ hi' hm
        have hstays : m ≠ .tell j → .tell j ∉ first ++ [m] ∧
            ((after (moves ++ first)).step m).guards[j]? = some ⟨r, .removed⟩ := fun hne => by
          rw [List.mem_append, List.mem_singleton, not_or]
          exact ⟨⟨htell, Ne.symm hne⟩, removed_step hj' hne⟩
        refine ⟨w'', hi'', ?_⟩
        rcases hstep with ⟨rfl, rfl⟩ | ⟨-, rfl | ⟨rfl, hnot⟩⟩
        · obtain ⟨hnone, hleft⟩ := hstays nofun
          refine ⟨⟨hname, hbarrier⟩, Or.inr ⟨?_, j, r, hj, hleft, hnone⟩⟩
          simp only [Waiter.proceed, hstage]
        · exact ⟨⟨hname, hbarrier⟩, Or.inl (goes_told (by simp [hstage])).1⟩
        · obtain ⟨hnone, hleft⟩ := hstays fun htells => hnot j r htells hj'
          exact ⟨⟨hname, hbarrier⟩, Or.inr ⟨hstage, j, r, hj, hleft, hnone⟩⟩
  obtain ⟨w', hi', hsame, hgoes | ⟨-, j, r, hj, -, htell⟩⟩ := hwaits
  · exact ⟨w', hi', hsame, hgoes⟩
  · exact absurd (htold j r hj) htell

/-- Who waits for early operations, of which none is in flight any more, goes on with its next
steps as soon as it is told of the ends that were on their way. -/
theorem passed_after (moves first rest : List LobbyMove)
    (hi : (after moves).waiters[i]? = some w) (hw : w.stage ≠ .dropped)
    (hclear : ClearAlong moves (first ++ rest) w.name w.barrier)
    (hgive : .giveUp i ∉ first ++ rest)
    (htold : ∀ j r, (after moves).guards[j]? = some ⟨r, .removed⟩ → .tell j ∈ first)
    (hsteps : 3 ≤ rest.count (.proceed i)) :
    ∃ w', (after (moves ++ first ++ rest)).waiters[i]? = some w' ∧ w'.stage = .passed := by
  rw [List.mem_append, not_or] at hgive
  obtain ⟨w', hi', ⟨hname, hbarrier⟩, hgoes⟩ := goes_after_told moves first hi hw
    (fun part hpart => hclear part (hpart.trans (List.prefix_append first rest))) hgive.1 htold
  have hlater : ClearAlong (moves ++ first) rest w'.name w'.barrier := fun part hpart => by
    rw [hname, hbarrier, List.append_assoc]
    exact hclear (first ++ part) ((List.prefix_append_right_inj first).mpr hpart)
  obtain ⟨w'', hi'', -, hgoes', hleft⟩ := goes_after (moves ++ first) rest hi' hgoes hlater hgive.2
  refine ⟨w'', hi'', hgoes'.stepsLeft_le.2 ?_⟩
  have hthree := hgoes.stepsLeft_le.1
  omega

/-- What can be relied on where operations are registered and waited for. -/
structure Separates (moves : List LobbyMove) : Prop where
  /-- Tickets rise in the order of the registrations. -/
  rising : ((after moves).guards.map fun g => g.registration.ticket).Pairwise (· < ·)
  /-- The barrier stands between the registrations so far and all later ones. -/
  barrier : ∀ (later : List LobbyMove) (j : Nat) (g : Guard),
    (after (moves ++ later)).guards[j]? = some g →
      (g.registration.ticket ≤ (after moves).sets.barrier ↔ j < (after moves).guards.length)
  /-- As many operations on a name are counted as are in flight. -/
  counts : ∀ name,
    (after moves).sets.count name = ((after moves).live.filter fun r => r.name == name).length ∧
      (after moves).pending.count name = (after moves).sets.count name
  /-- Whoever waits goes on only where no operation on its name is in flight up to its barrier. -/
  waits : ∀ (m : LobbyMove) (i : Nat) (w w' : Waiter), (after moves).waiters[i]? = some w →
    w.stage ≠ .passed → (after (moves ++ [m])).waiters[i]? = some w' → w'.stage = .passed →
      (after (moves ++ [m])).Clear w.name w.barrier
  /-- Operations on its name up to a barrier that was given out do not come back. -/
  clears : ∀ (later : List LobbyMove) (name : String) (barrier : Nat),
    (after moves).Clear name barrier → barrier ≤ (after moves).sets.barrier →
      ClearAlong moves later name barrier
  /-- Whoever waits is not held back by anything else: while no operation on its name is in flight
  up to its barrier, it goes on with its third step at the latest, counted from when it was told of
  the ends that were on their way. -/
  goes : ∀ (first rest : List LobbyMove) (i : Nat) (w : Waiter),
    (after moves).waiters[i]? = some w → w.stage ≠ .dropped →
      ClearAlong moves (first ++ rest) w.name w.barrier → .giveUp i ∉ first ++ rest →
      (∀ j r, (after moves).guards[j]? = some ⟨r, .removed⟩ → .tell j ∈ first) →
      3 ≤ rest.count (.proceed i) →
        ∃ w', (after (moves ++ first ++ rest)).waiters[i]? = some w' ∧ w'.stage = .passed

/-- A barrier separates the operations before it from those behind it, whatever moves are made. -/
theorem separates (moves : List LobbyMove) : Separates moves where
  rising := by
    rw [(orderly_after moves).tickets]
    exact List.pairwise_lt_range' 1
  barrier later j g hj := by
    have h := orderly_after moves
    have hticket := (orderly_after (moves ++ later)).ticket_eq hj
    have hbarrier : (after moves).sets.barrier = (after moves).pending.last := h.holds.last
    rw [hticket, hbarrier, h.length_guards]
    exact Nat.succ_le_iff
  counts name := by
    have h := orderly_after moves
    rw [h.holds.count_eq]
    exact ⟨(h.live.filter _).length_eq.symm, rfl⟩
  waits m i w w' hi hw hi' hw' := by
    rw [after_concat] at hi' ⊢
    obtain ⟨hclear, rfl⟩ := (orderly_after moves).clear_of_passed hi hw hi' hw'
    exact hclear
  clears later name barrier hclear hbarrier part _ :=
    clear_after moves part hclear (by
      rw [← (orderly_after moves).holds.last]
      exact hbarrier)
  goes first rest i w := passed_after moves first rest

end Lobby

end Segments
