import Segments.Proofs.Recast

/-!
# Stores without one of the operations

An operation is present in a store by its places in line and its registrations. `without` is the
store as it is without them, which is what giving the operation up makes of it. What another
operation does there is what it does in the store as it is, unless it has to wait for the first one:
then it has not come as far, and catches up when it goes on.
-/

namespace Segments

/-! ## One line -/

namespace TurnLine

variable {l l' : TurnLine} {x : Nat} {id : SegmentId} {places more : List Place}

/-- A line is given by the last ticket given out, by those who stand there, and by whether the first
of them has taken up the turn. -/
theorem WellFormed.eq_of (h : l.WellFormed) (h' : l'.WellFormed) (hissued : l.issued = l'.issued)
    (htickets : l.tickets = l'.tickets)
    (hholds : ∀ x, l.holds x = true ↔ l'.holds x = true) : l = l' := by
  obtain ⟨n, turn, line⟩ := l
  obtain ⟨n', turn', line'⟩ := l'
  obtain rfl : n = n' := hissued
  have hfree := h.free
  have hfree' := h'.free
  simp only [holds_iff] at hholds
  cases turn with
  | free =>
    obtain rfl : line = [] := hfree rfl
    cases turn' with
    | free => rw [show line' = [] from hfree' rfl]
    | offered x => simp [tickets, Turn.ticket?] at htickets
    | held x => simp [tickets, Turn.ticket?] at htickets
  | offered x =>
    cases turn' with
    | free => simp [tickets, Turn.ticket?, show line' = [] from hfree' rfl] at htickets
    | offered x' =>
      obtain ⟨rfl, rfl⟩ : x = x' ∧ line = line' := by
        simpa [tickets, Turn.ticket?] using htickets
      rfl
    | held x' => simpa using hholds x'
  | held x =>
    cases turn' with
    | free => simp [tickets, Turn.ticket?, show line' = [] from hfree' rfl] at htickets
    | offered x' => simpa using hholds x
    | held x' =>
      obtain ⟨rfl, rfl⟩ : x = x' ∧ line = line' := by
        simpa [tickets, Turn.ticket?] using htickets
      rfl

/-- Whoever stands first at a line has the turn or is offered it. -/
theorem WellFormed.turn_of_head? (h : l.WellFormed) (hfirst : l.tickets.head? = some x) :
    l.turn = .held x ∨ l.turn = .offered x := by
  rw [tickets] at hfirst
  cases hturn : l.turn with
  | free =>
    rw [hturn, h.free hturn] at hfirst
    cases hfirst
  | offered y =>
    rw [hturn] at hfirst
    exact Or.inr (congrArg _ (Option.some.inj hfirst))
  | held y =>
    rw [hturn] at hfirst
    exact Or.inl (congrArg _ (Option.some.inj hfirst))

/-- Whoever is given the chance to take up the turn has it if it stands first. -/
theorem WellFormed.holds_takeUp (h : l.WellFormed) :
    (l.takeUp x).holds x = true ↔ l.tickets.head? = some x := by
  rw [holds_takeUp_self, tickets]
  cases hturn : l.turn with
  | free => simp [Turn.ticket?, h.free hturn]
  | offered y => simp [Turn.ticket?]
  | held y => simp [Turn.ticket?]

/-- The line of a segment without some places. -/
def without (l : TurnLine) (id : SegmentId) (places : List Place) : TurnLine :=
  places.foldl (fun l p => if id = p.segment then l.leave p.ticket else l) l

/-- Places are left one after another; those in other lines do not count. -/
theorem without_cons (l : TurnLine) (id : SegmentId) (p : Place) (places : List Place) :
    l.without id (p :: places) =
      (if id = p.segment then l.leave p.ticket else l).without id places := rfl

/-- An empty line stays empty. -/
theorem without_empty (id : SegmentId) (places : List Place) :
    empty.without id places = empty := by
  induction places with
  | nil => rfl
  | cons p places ih =>
    have hfirst : (if id = p.segment then empty.leave p.ticket else empty) = empty := by
      split <;> rfl
    rw [without_cons, hfirst, ih]

/-- Tickets that were given out stay given out. -/
theorem issued_without (l : TurnLine) (id : SegmentId) (places : List Place) :
    (l.without id places).issued = l.issued := by
  induction places generalizing l with
  | nil => rfl
  | cons p places ih =>
    rw [without_cons, ih]
    split
    · exact leave_issued l p.ticket
    · rfl

/-- A line from which places are taken stays well formed. -/
theorem WellFormed.without (h : l.WellFormed) (id : SegmentId) (places : List Place) :
    (l.without id places).WellFormed := by
  induction places generalizing l with
  | nil => exact h
  | cons p places ih =>
    rw [without_cons]
    split
    · exact ih (h.leave p.ticket)
    · exact ih h

/-- Exactly the tickets of the places are taken from the line. -/
theorem WellFormed.tickets_without (h : l.WellFormed) (id : SegmentId) (places : List Place) :
    (l.without id places).tickets = l.tickets.filter fun x => decide (⟨id, x⟩ ∉ places) := by
  induction places generalizing l with
  | nil => exact (List.filter_eq_self.mpr fun _ _ => by simp).symm
  | cons p places ih =>
    obtain ⟨segment, ticket⟩ := p
    rw [without_cons]
    split
    · next hid =>
      obtain rfl : id = segment := hid
      rw [ih (h.leave ticket), h.tickets_leave, List.filter_filter]
      refine List.filter_congr fun x _ => ?_
      by_cases hx : x = ticket <;> simp [hx]
    · next hid =>
      rw [ih h]
      have hne : id ≠ segment := hid
      exact List.filter_congr fun x _ => by simp [hne]

/-- Nobody gets or loses a turn because others are not there; it may be offered to somebody. -/
theorem holds_without (h : ⟨id, x⟩ ∉ places) : (l.without id places).holds x = l.holds x := by
  induction places generalizing l with
  | nil => rfl
  | cons p places ih =>
    rw [List.mem_cons, not_or] at h
    rw [without_cons, ih h.2]
    split
    · next hid =>
      refine holds_leave_of_ne fun hx => h.1 ?_
      obtain ⟨segment, ticket⟩ := p
      obtain rfl : id = segment := hid
      obtain rfl : x = ticket := hx
      rfl
    · rfl

/-- Nobody holds the turn with a place that was taken away. -/
theorem WellFormed.not_holds_without (h : l.WellFormed) (hx : ⟨id, x⟩ ∈ places) :
    ¬(l.without id places).holds x = true := by
  intro hholds
  have hmem := mem_tickets_of_holds hholds
  rw [h.tickets_without, List.mem_filter] at hmem
  simp [hx] at hmem

/-- It does not matter who leaves first. -/
theorem WellFormed.without_comm (h : l.WellFormed) :
    (l.without id places).without id more = (l.without id more).without id places := by
  have hfirst := h.without id places
  have hsecond := h.without id more
  refine (hfirst.without id more).eq_of (hsecond.without id places) ?_ ?_ fun x => ?_
  · simp only [issued_without]
  · rw [hfirst.tickets_without, h.tickets_without, hsecond.tickets_without, h.tickets_without,
      List.filter_filter, List.filter_filter]
    exact List.filter_congr fun x _ => Bool.and_comm _ _
  · by_cases hplaces : (⟨id, x⟩ : Place) ∈ places
    · by_cases hmore : (⟨id, x⟩ : Place) ∈ more
      · exact iff_of_false (hfirst.not_holds_without hmore) (hsecond.not_holds_without hplaces)
      · rw [holds_without hmore]
        exact iff_of_false (h.not_holds_without hplaces) (hsecond.not_holds_without hplaces)
    · by_cases hmore : (⟨id, x⟩ : Place) ∈ more
      · rw [holds_without hplaces]
        exact iff_of_false (hfirst.not_holds_without hmore) (h.not_holds_without hmore)
      · rw [holds_without hmore, holds_without hplaces, holds_without hplaces,
          holds_without hmore]

/-- The next ticket is one of a place that nobody has. -/
theorem next_notMem (hknown : ∀ p ∈ places, p.segment = id → p.ticket ≤ l.issued) :
    (⟨id, l.arrive.2⟩ : Place) ∉ places := by
  intro hmem
  have hle := hknown _ hmem rfl
  rw [arrive_ticket] at hle
  exact Nat.not_succ_le_self _ hle

/-- The next ticket is the same whether places are taken away or not. -/
theorem arrive_without_ticket : (l.without id places).arrive.2 = l.arrive.2 := by
  rw [arrive_ticket, arrive_ticket, issued_without]

/-- Who arrives has the turn exactly if it was free. -/
theorem holds_arrive :
    l.arrive.1.holds x = true ↔ l.holds x = true ∨ x = l.arrive.2 ∧ l.turn = .free := by
  rw [holds_iff, holds_iff, arrive_ticket, arrive]
  cases hturn : l.turn with
  | free => simp [eq_comm]
  | offered y => simp
  | held y => simp

/-- Who arrives is the last in line, also after places were taken away. -/
theorem WellFormed.tickets_arrive_without (h : l.WellFormed)
    (hknown : ∀ p ∈ places, p.segment = id → p.ticket ≤ l.issued) :
    (l.arrive.1.without id places).tickets = (l.without id places).tickets ++ [l.arrive.2] := by
  have hnext := next_notMem hknown
  rw [h.arrive.tickets_without, h.tickets_arrive, h.tickets_without, List.filter_append,
    List.filter_cons_of_pos (by simpa using hnext), List.filter_nil]

/-- Who arrives does not notice that some are missing, unless nobody else is there. -/
theorem WellFormed.arrive_without (h : l.WellFormed)
    (hknown : ∀ p ∈ places, p.segment = id → p.ticket ≤ l.issued)
    (hfree : (l.without id places).turn = .free → l.turn = .free) :
    (l.without id places).arrive.1 = l.arrive.1.without id places := by
  have hwithout := h.without id places
  have hturn : (l.without id places).turn = .free ↔ l.turn = .free := by
    refine ⟨hfree, fun hl => ?_⟩
    rw [← hwithout.tickets_eq_nil, h.tickets_without, h.tickets_eq_nil.mpr hl, List.filter_nil]
  refine hwithout.arrive.eq_of (h.arrive.without id places) ?_ ?_ fun x => ?_
  · simp only [issued_without, arrive_issued]
  · rw [hwithout.tickets_arrive, h.tickets_arrive_without hknown, arrive_without_ticket]
  · rw [holds_arrive, arrive_without_ticket, hturn]
    by_cases hx : (⟨id, x⟩ : Place) ∈ places
    · refine iff_of_false ?_ (h.arrive.not_holds_without hx)
      rintro (hholds | ⟨rfl, -⟩)
      · exact h.not_holds_without hx hholds
      · exact next_notMem hknown hx
    · rw [holds_without hx, holds_without hx, holds_arrive]

/-- Who arrives where only those are who are missing has the turn, and is offered it when they
leave. -/
theorem WellFormed.takeUp_arrive_without (h : l.WellFormed)
    (hknown : ∀ p ∈ places, p.segment = id → p.ticket ≤ l.issued)
    (hfree : (l.without id places).turn = .free) :
    (l.arrive.1.without id places).takeUp l.arrive.2 = (l.without id places).arrive.1 := by
  have hwithout := h.without id places
  have hlater := h.arrive.without id places
  have hnobody : (l.without id places).tickets = [] := hwithout.tickets_eq_nil.mpr hfree
  have htickets := h.tickets_arrive_without hknown
  rw [hnobody, List.nil_append] at htickets
  refine (hlater.takeUp _).eq_of hwithout.arrive ?_ ?_ fun x => ?_
  · simp only [takeUp_issued, issued_without, arrive_issued]
  · rw [tickets_takeUp, htickets, hwithout.tickets_arrive, hnobody, arrive_without_ticket]
    rfl
  · by_cases hx : x = l.arrive.2
    · subst hx
      refine iff_of_true (hlater.holds_takeUp.mpr ?_) (holds_arrive.mpr (Or.inr ⟨?_, hfree⟩))
      · rw [htickets]
        rfl
      · exact arrive_without_ticket.symm
    · -- nobody but the one who arrives stands there
      refine iff_of_false (fun hholds => hx ?_) fun hholds => hx ?_
      · have hmem := mem_tickets_of_holds hholds
        rw [tickets_takeUp, htickets] at hmem
        exact List.mem_singleton.mp hmem
      · have hmem := mem_tickets_of_holds hholds
        rw [hwithout.tickets_arrive, hnobody, arrive_without_ticket] at hmem
        exact List.mem_singleton.mp hmem

/-- Who takes up the turn does not notice that some are missing, unless they stand before it. -/
theorem WellFormed.takeUp_without (h : l.WellFormed) (hx : ⟨id, x⟩ ∉ places)
    (hfirst : (l.without id places).tickets.head? = some x → l.tickets.head? = some x) :
    (l.without id places).takeUp x = (l.takeUp x).without id places := by
  have hwithout := h.without id places
  have hhead : (l.without id places).tickets.head? = some x ↔ l.tickets.head? = some x := by
    refine ⟨hfirst, fun hl => ?_⟩
    obtain ⟨rest, hrest⟩ := List.head?_eq_some_iff.mp hl
    rw [h.tickets_without, hrest, List.filter_cons_of_pos (by simpa using hx)]
    rfl
  refine (hwithout.takeUp x).eq_of ((h.takeUp x).without id places) ?_ ?_ fun y => ?_
  · simp only [takeUp_issued, issued_without]
  · rw [tickets_takeUp, h.tickets_without, (h.takeUp x).tickets_without, tickets_takeUp]
  · by_cases hy : y = x
    · subst hy
      rw [hwithout.holds_takeUp, hhead, holds_without hx, h.holds_takeUp]
    · rw [holds_takeUp_of_ne hy]
      by_cases hin : (⟨id, y⟩ : Place) ∈ places
      · exact iff_of_false (h.not_holds_without hin) ((h.takeUp x).not_holds_without hin)
      · rw [holds_without hin, holds_without hin, holds_takeUp_of_ne hy]

end TurnLine

/-! ## The store -/

namespace Engine

variable {s s' s'' : Engine} {a : Account} {F : SegmentId → TurnLine → TurnLine}
  {P : Pending → Pending} {id : SegmentId} {mine : List Place} {rs : List Registration}
  {action : Action} {o : Operation}

/-- The line of a segment is that of its entry. -/
theorem lines_of_get? {e : Entry} (he : s.entries.get? id = some e) : s.lines id = e.turns := by
  rw [lines, entry_eq he]

theorem Alike.recast (s : Engine) (F : SegmentId → TurnLine → TurnLine) (P : Pending → Pending) :
    s.Alike (s.recast F P) where
  config := rfl
  entry id e he := by
    refine ⟨{ e with turns := F id e.turns }, ?_, rfl, rfl, .refl _,
      fun _ h => ⟨h.published, h.cached⟩⟩
    rw [get?_recast, he]
    rfl
  noEntry id he := by rw [get?_recast, he]; rfl
  names := rfl
  nextId := rfl
  log := rfl
  store := rfl
  closed := rfl
  clock := rfl

/-- Stores that only their lines tell apart. -/
def Relined (s s' : Engine) : Prop := s' = s.recast (fun id _ => s'.lines id) fun p => p

namespace Relined

/-- A store with other lines goes beside the one whose lines they were. -/
theorem of_recast (s : Engine) (F : SegmentId → TurnLine → TurnLine) :
    s.Relined (s.recast F fun p => p) := by
  refine recast_congr (fun id e he => ?_) rfl
  rw [lines_of_get? (show (s.recast F fun p => p).entries.get? id =
    some { e with turns := F id e.turns } by rw [get?_recast, he]; rfl)]

theorem refl (s : Engine) : s.Relined s := by
  have hsame := of_recast s fun _ l => l
  rwa [recast_self] at hsame

theorem trans (h : s.Relined s') (h' : s'.Relined s'') : s.Relined s'' := by
  unfold Relined at h'
  rw [h, recast_recast] at h'
  exact h'

theorem modifyTurns (s : Engine) (id : SegmentId) (f : TurnLine → TurnLine) :
    s.Relined (s.modifyTurns id f) := by
  rw [modifyTurns_eq_recast]
  exact of_recast s _

theorem alike (h : s.Relined s') : s.Alike s' := by
  rw [h]
  exact .recast _ _ _

/-- Stores that only their lines tell apart are told apart by their lines if these are changed. -/
theorem recast (h : s.Relined s') (F G : SegmentId → TurnLine → TurnLine) (P : Pending → Pending) :
    (s.recast F P).Relined (s'.recast G P) := by
  have hs' : s'.recast G P = s.recast (fun id _ => G id (s'.lines id)) P := by
    conv_lhs => rw [h]
    rw [recast_recast]
  have hsame : s.recast (fun id _ => G id (s'.lines id)) P =
      (s.recast F P).recast (fun id _ => G id (s'.lines id)) fun p => p := by
    rw [recast_recast]
  rw [hs', hsame]
  exact of_recast _ _

end Relined

/-- The store without the places and the registrations of an operation. -/
def without (s : Engine) (places : List Place) (rs : List Registration) : Engine :=
  s.recast (fun id l => l.without id places) fun p => p.releaseAll rs

/-- Who has no places is present only by the registrations. -/
theorem without_nil (s : Engine) (rs : List Registration) :
    s.without [] rs = { s with pending := s.pending.releaseAll rs } := by
  have hentries : s.entries.adjust (fun _ e => e) = s.entries := s.entries.adjust_self
  exact congrArg (fun entries => { s with entries, pending := s.pending.releaseAll rs }) hentries

/-- To leave places is to take them from the lines. -/
theorem leaveAll_eq_recast (s : Engine) (places : List Place) :
    s.leaveAll places = s.recast (fun id l => l.without id places) fun p => p := by
  induction places generalizing s with
  | nil => exact (recast_self s).symm
  | cons p places ih =>
    have hfirst : s.leaveAll (p :: places) =
        (s.modifyTurns p.segment fun l => l.leave p.ticket).leaveAll places := rfl
    rw [hfirst, ih, modifyTurns_eq_recast, recast_recast]
    rfl

/-- Giving an operation up makes the store that is without it. -/
theorem abandon_fst (s : Engine) (o : Operation) (error : SegmentError) :
    (s.abandon o error).1 = s.without o.phase.places o.registrations := by
  simp only [abandon, leaveAll_eq_recast]
  rfl

theorem without_empty (id : SegmentId) : TurnLine.empty.without id mine = .empty :=
  TurnLine.without_empty id mine

/-- In the store without places each line is without them. -/
theorem lines_without (s : Engine) (mine : List Place) (rs : List Registration) (id : SegmentId) :
    (s.without mine rs).lines id = (s.lines id).without id mine :=
  lines_recast without_empty id

/-- Places may be left before others are taken away or after. -/
theorem leaveAll_without (hw : s.LinesFormed) (places mine : List Place)
    (rs : List Registration) :
    (s.without mine rs).leaveAll places = (s.leaveAll places).without mine rs := by
  rw [leaveAll_eq_recast, leaveAll_eq_recast, without, without, recast_recast, recast_recast]
  refine recast_congr (fun id e he => ?_) rfl
  rw [← lines_of_get? he]
  exact (hw id).without_comm

/-- What a step of an operation comes to in the store without another one, beside what it comes to
in the store as it is. -/
inductive Beside (s : Engine) (mine : List Place) (rs : List Registration) (o : Operation)
    (real aside : Engine × Phase × List Event) : Prop where
  /-- It comes to the same. -/
  | same (engine : aside.1 = real.1.without mine rs) (phase : aside.2.1 = real.2.1)
  /-- It has to wait for the other one, and catches up without it. -/
  | later (unfinished : real.2.1.isFinished = false) (relined : s.Relined real.1)
      (catches : (real.1.without mine rs).advancePhase { o with phase := real.2.1 } = aside)

/-- A check that does not look at lines comes to the same. -/
theorem Beside.ofCheck {α : Type} {check : Except SegmentError α}
    {next next' : α → Engine × Phase × List Event}
    (h : ∀ x, s.Beside mine rs o (next x) (next' x)) :
    s.Beside mine rs o (Phase.ofCheck s check next)
      (Phase.ofCheck (s.without mine rs) check next') := by
  cases check with
  | error e => exact .same rfl rfl
  | ok x => exact h x

/-- An operation ends alike in the store without the places. -/
theorem conclude_without (s : Engine) (mine : List Place) (rs : List Registration)
    (o : Operation) (action : Action) :
    s.Beside mine rs o (s.conclude action) ((s.without mine rs).conclude action) := by
  obtain ⟨hengine, hresult⟩ := execute_recast (s := s) (P := fun p => p.releaseAll rs)
    (F := fun id l => l.without id mine) without_empty action
  refine .same hengine ?_
  exact congrArg Phase.finished hresult

/-- The store after somebody has come to the line of a segment. -/
def arrived (s : Engine) (id : SegmentId) : Engine :=
  s.modifyTurns id fun _ => (s.lines id).arrive.1

/-- Who arrives at a line has the turn exactly if it was free. -/
theorem hasTurn_arrived (hw : s.LinesFormed) {e : Entry} (he : s.entries.get? id = some e) :
    (s.arrived id).hasTurn ⟨id, (s.lines id).arrive.2⟩ = true ↔ (s.lines id).turn = .free := by
  have hline := lines_modifyTurns he (fun _ => (s.lines id).arrive.1) id
  rw [if_pos rfl] at hline
  rw [hasTurn_eq, arrived, hline, TurnLine.holds_arrive_self (hw id)]

/-- Turns are taken one after another, up to the first that is not free. -/
theorem takeTurns_cons (hw : s.LinesFormed) {e : Entry} (he : s.entries.get? id = some e)
    (action : Action) (held : List Place) (wanted : List SegmentId) :
    s.takeTurns action held (id :: wanted) =
      if (s.lines id).turn = .free then
        (s.arrived id).takeTurns action (⟨id, (s.lines id).arrive.2⟩ :: held) wanted
      else (s.arrived id, .inLine action held ⟨id, (s.lines id).arrive.2⟩ wanted, []) := by
  rw [takeTurns]
  exact if_congr (hasTurn_arrived hw he) rfl rfl

/-- Who arrives does so alike in the store without the places, unless these kept the turn from it.
-/
theorem arrived_without (hw : s.LinesFormed)
    (hmine : ∀ p ∈ mine, p.ticket ≤ (s.lines p.segment).issued)
    (hfree : ((s.lines id).without id mine).turn = .free → (s.lines id).turn = .free) :
    (s.without mine rs).arrived id = (s.arrived id).without mine rs := by
  refine modifyTurns_recast fun e he => ?_
  rw [lines_without]
  exact (hw id).arrive_without (fun p hp hid => hid ▸ hmine p hp) hfree

/-- Who has come to a line where only those stand who are missing takes up the turn. -/
theorem takeUp_arrived_without (hw : s.LinesFormed)
    (hmine : ∀ p ∈ mine, p.ticket ≤ (s.lines p.segment).issued)
    (hfree : ((s.lines id).without id mine).turn = .free) :
    (((s.arrived id).without mine rs).modifyTurns id fun l => l.takeUp (s.lines id).arrive.2) =
      (s.without mine rs).arrived id := by
  unfold arrived without
  rw [lines_recast without_empty, modifyTurns_eq_recast, modifyTurns_eq_recast,
    modifyTurns_eq_recast, recast_recast, recast_recast, recast_recast]
  refine recast_congr (fun j e he => ?_) rfl
  split
  · next hj =>
    subst hj
    exact (hw j).takeUp_arrive_without (fun p hp hid => hid ▸ hmine p hp) hfree
  · rfl

/-- The lines of the store without the places are well formed. -/
theorem LinesFormed.without (hw : s.LinesFormed) : (s.without mine rs).LinesFormed := by
  intro id
  rw [lines_without]
  exact (hw id).without id mine

/-- The store without the places has the same segments. -/
theorem exists_without {e : Entry} (mine : List Place) (rs : List Registration)
    (he : s.entries.get? id = some e) :
    ∃ e', (s.without mine rs).entries.get? id = some e' := by
  rw [Engine.without, get?_recast, he]
  exact ⟨_, rfl⟩

/-- What goes beside a store with other lines goes beside the store itself. -/
theorem Beside.of_relined {real aside : Engine × Phase × List Event} (h : s.Relined s')
    (hb : s'.Beside mine rs o real aside) : s.Beside mine rs o real aside := by
  cases hb with
  | same engine phase => exact .same engine phase
  | later unfinished relined catches => exact .later unfinished (h.trans relined) catches

/-- Who has come to a line where only those stand who are missing goes on without them as it would
have from the beginning. -/
theorem advancePhase_arrived (hw : s.LinesFormed)
    (hmine : ∀ p ∈ mine, p.ticket ≤ (s.lines p.segment).issued) {e : Entry}
    (he : s.entries.get? id = some e)
    (hfree : ((s.lines id).without id mine).turn = .free) (o : Operation) (action : Action)
    (held : List Place) (wanted : List SegmentId) :
    ((s.arrived id).without mine rs).advancePhase
        { o with phase := .inLine action held ⟨id, (s.lines id).arrive.2⟩ wanted } =
      (s.without mine rs).takeTurns action held (id :: wanted) := by
  obtain ⟨e', he'⟩ := exists_without mine rs he
  have hturn := hasTurn_arrived hw.without he'
  rw [takeTurns_cons hw.without he']
  rw [lines_without, TurnLine.arrive_without_ticket] at hturn ⊢
  simp only [advancePhase, takeUp_arrived_without hw hmine hfree, hturn.mpr hfree, if_pos hfree,
    ↓reduceIte]

/-- The turns of a segment are taken in the store without another operation. -/
theorem takeTurns_without (h : s.Outlines a) (hw : s.LinesFormed)
    (hmine : ∀ p ∈ mine, p.ticket ≤ (s.lines p.segment).issued) (o : Operation) (action : Action)
    {held : List Place} {wanted : List SegmentId}
    (hthere : ∀ id ∈ wanted, ∃ e, s.entries.get? id = some e) :
    s.Beside mine rs o (s.takeTurns action held wanted)
      ((s.without mine rs).takeTurns action held wanted) := by
  induction wanted generalizing s held with
  | nil =>
    unfold takeTurns
    have hopen : (s.without mine rs).requireOpen = s.requireOpen := rfl
    rw [hopen]
    cases s.requireOpen with
    | error e => exact .same (leaveAll_without hw held mine rs) rfl
    | ok u =>
      obtain ⟨hengine, hresult⟩ := execute_recast (s := s) (P := fun p => p.releaseAll rs)
        (F := fun id l => l.without id mine) without_empty action
      have hformed : (s.execute action).1.LinesFormed := by
        intro id
        rw [lines_execute h]
        exact hw id
      refine .same ?_ (congrArg Phase.finished hresult)
      refine Eq.trans ?_ (leaveAll_without hformed held mine rs)
      exact congrArg (leaveAll · held) hengine
  | cons id wanted ih =>
    obtain ⟨e, he⟩ := hthere id List.mem_cons_self
    obtain ⟨e', he'⟩ := exists_without mine rs he
    have hrelined : s.Relined (s.arrived id) := .modifyTurns s id _
    rw [takeTurns_cons hw he]
    by_cases hfree : ((s.lines id).without id mine).turn = .free → (s.lines id).turn = .free
    · -- whoever else is there, the first operation makes no difference
      rw [takeTurns_cons hw.without he', lines_without, TurnLine.arrive_without_ticket,
        arrived_without hw hmine hfree]
      by_cases hturn : (s.lines id).turn = .free
      · have hturn' : ((s.lines id).without id mine).turn = .free := by
          have hempty := (hw id).tickets_eq_nil.mpr hturn
          rw [← ((hw id).without id mine).tickets_eq_nil, (hw id).tickets_without, hempty,
            List.filter_nil]
        rw [if_pos hturn, if_pos hturn']
        have hjoins : s.Joins (s.arrived id) held [⟨id, (s.lines id).arrive.2⟩] := .arrive hw he
        refine .of_relined hrelined (ih (h.resembles hrelined.alike.resembles)
          hjoins.spares.formed (fun p hp => ?_) fun j hj => ?_)
        · exact Nat.le_trans (hmine p hp) (hjoins.spares.issued p.segment)
        · obtain ⟨c, hc⟩ := hthere j (List.mem_cons_of_mem _ hj)
          obtain ⟨c', hc', -⟩ := hrelined.alike.entry j c hc
          exact ⟨c', hc'⟩
      · rw [if_neg hturn, if_neg fun hturn' => hturn (hfree hturn')]
        exact .same rfl rfl
    · rw [Classical.not_imp] at hfree
      rw [if_neg hfree.2]
      exact .later rfl hrelined (advancePhase_arrived hw hmine he hfree.1 o action held wanted)

/-- A name stands for the same segment. -/
theorem Beside.resolve {name : String} {next next' : Entry → Engine × Phase × List Event}
    (h : ∀ e l, s.resolve name = .ok e →
      s.Beside mine rs o (next e) (next' { e with turns := l })) :
    s.Beside mine rs o (Phase.ofCheck s (s.resolve name) next)
      (Phase.ofCheck (s.without mine rs) ((s.without mine rs).resolve name) next') := by
  obtain ⟨id, hid, -⟩ := resolve_recast s (fun id l => l.without id mine)
    (fun p => p.releaseAll rs) name
  rw [Engine.without, hid]
  cases hr : s.resolve name with
  | error e => exact .same rfl rfl
  | ok e => exact h e _ hr

/-- Who waits for earlier operations need not wait for one that is missing. -/
theorem describe_without (s : Engine) (mine : List Place) (rs : List Registration)
    {name : String} {wait : Bool} (hrequest : o.request = .info name wait) :
    s.Beside mine rs o (s.describe name wait o.barrier)
      ((s.without mine rs).describe name wait o.barrier) := by
  by_cases hwaits : wait = true ∧ (!s.pending.isClear name o.barrier) = true
  · have hreal : s.describe name wait o.barrier = (s, .accepted, []) := if_pos hwaits
    rw [hreal]
    refine .later rfl (.refl s) ?_
    simp only [advancePhase, hrequest]
    rfl
  · have hclear : ¬(wait = true ∧
        (!(s.without mine rs).pending.isClear name o.barrier) = true) := by
      rintro ⟨hwait, hnot⟩
      refine hwaits ⟨hwait, ?_⟩
      simp only [Bool.not_eq_true', Bool.eq_false_iff, ne_eq] at hnot ⊢
      refine fun hall => hnot ?_
      simp only [Pending.isClear, List.all_eq_true, without, recast, Pending.releaseAll_live,
        List.mem_filter] at hall ⊢
      exact fun r hr => hall r hr.1
    have hproperties : (s.without mine rs).properties name = s.properties name :=
      properties_recast s _ _ name
    rw [describe, describe, if_neg hwaits, if_neg hclear, hproperties]
    exact .same rfl rfl

/-- An operation begins alike in the store without the places, or waits where it would go on there.
-/
theorem begin_without (h : s.Outlines a) (hw : s.LinesFormed)
    (hmine : ∀ p ∈ mine, p.ticket ≤ (s.lines p.segment).issued) (o : Operation) :
    s.Beside mine rs o (s.begin o.barrier o.request)
      ((s.without mine rs).begin o.barrier o.request) := by
  have hatOnce : ∀ (name : String) (make : SegmentId → Action),
      s.Beside mine rs o (s.atOnce name make) ((s.without mine rs).atOnce name make) :=
    fun name make => .ofCheck fun _ => .resolve fun e l _ => conclude_without s mine rs o _
  have hinTurn : ∀ (name : String) (make : SegmentId → Action),
      s.Beside mine rs o (s.inTurn name make) ((s.without mine rs).inTurn name make) := by
    intro name make
    refine .ofCheck fun _ => .resolve fun e l he => ?_
    refine takeTurns_without h hw hmine o _ fun id hid => ?_
    rw [List.mem_singleton.mp hid]
    exact ⟨e, (h.of_resolve he).2⟩
  cases hrequest : o.request with
  | create name updates => exact .ofCheck fun _ => conclude_without s mine rs o _
  | append name data updates => exact hatOnce name fun id => .append id data updates none
  | appendAt name offset data updates =>
    exact hinTurn name fun id => .append id data updates (some offset)
  | update name updates => exact hatOnce name fun id => .update name id updates
  | lookup name ids cache =>
    obtain ⟨hengine, hphase⟩ := beginLookup_recast s (fun id l => l.without id mine)
      (fun p => p.releaseAll rs) name ids cache
    exact .same hengine hphase
  | read name offset maxLength =>
    refine .ofCheck fun _ => ?_
    obtain ⟨hengine, hresult⟩ := openReader_recast s (fun id l => l.without id mine)
      (fun p => p.releaseAll rs) name offset maxLength
    exact .same hengine (congrArg (fun r => Phase.finished (r.map .reader)) hresult)
  | info name wait => exact describe_without s mine rs hrequest
  | merge target source =>
    refine .ofCheck fun _ => .resolve fun e l he => .resolve fun e' l' he' => ?_
    refine takeTurns_without h hw hmine o _ fun id hid => ?_
    have hboth : id = e.id ∨ id = e'.id := by
      split at hid
      · simpa using hid
      · simpa [or_comm] using hid
    rcases hboth with rfl | rfl
    · exact ⟨e, (h.of_resolve he).2⟩
    · exact ⟨e', (h.of_resolve he').2⟩
  | sealing name => exact hinTurn name fun id => .sealing name id
  | delete name => exact hinTurn name fun id => .delete name id
  | truncate name offset => exact hinTurn name fun id => .truncate name id offset

/-- Who has come to a line takes up its turn in the store without another operation. -/
theorem takeUp_without (rs : List Registration) (hw : s.LinesFormed) {place : Place}
    (hplace : place ∉ mine)
    (hfirst : ((s.lines place.segment).without place.segment mine).tickets.head? =
      some place.ticket → (s.lines place.segment).tickets.head? = some place.ticket) :
    ((s.without mine rs).modifyTurns place.segment fun l => l.takeUp place.ticket) =
        (s.modifyTurns place.segment fun l => l.takeUp place.ticket).without mine rs ∧
      ((s.without mine rs).modifyTurns place.segment fun l => l.takeUp place.ticket).hasTurn place =
        (s.modifyTurns place.segment fun l => l.takeUp place.ticket).hasTurn place := by
  have htaken : ((s.without mine rs).modifyTurns place.segment fun l => l.takeUp place.ticket) =
      (s.modifyTurns place.segment fun l => l.takeUp place.ticket).without mine rs := by
    refine modifyTurns_recast fun e he => ?_
    rw [← lines_of_get? he]
    exact (hw place.segment).takeUp_without hplace hfirst
  refine ⟨htaken, ?_⟩
  rw [htaken, hasTurn_eq, hasTurn_eq, lines_without, TurnLine.holds_without hplace]

/-- Who would stand first if others were missing, and does not, waits for them. -/
theorem waits_of_head?_ne (hw : s.LinesFormed) {place : Place}
    (hfirst : (s.lines place.segment).tickets.head? ≠ some place.ticket) :
    (s.modifyTurns place.segment fun l => l.takeUp place.ticket) = s ∧
      s.hasTurn place = false := by
  have hnot : ¬((s.lines place.segment).turn = .offered place.ticket ∨
      (s.lines place.segment).turn = .held place.ticket) := by
    rw [← TurnLine.holds_takeUp_self, (hw place.segment).holds_takeUp]
    exact hfirst
  rw [not_or] at hnot
  refine ⟨modifyTurns_takeUp s place hnot.1, ?_⟩
  rw [hasTurn_eq, Bool.eq_false_iff, ne_eq, TurnLine.holds_iff]
  exact hnot.2

/-- A step of an operation in the store without another one. -/
theorem advancePhase_without (rs : List Registration) (h : s.Outlines a) (hw : s.LinesFormed)
    (hmine : ∀ p ∈ mine, p.ticket ≤ (s.lines p.segment).issued) (ho : o.phase.Placed s)
    (hapart : ∀ p ∈ o.phase.places, p ∉ mine) :
    s.Beside mine rs o (s.advancePhase o) ((s.without mine rs).advancePhase o) := by
  obtain ⟨request, barrier, registrations, phase⟩ := o
  cases phase with
  | accepted => exact begin_without h hw hmine _
  | inLine action held place wanted =>
    have hplace : place ∉ mine := hapart place List.mem_cons_self
    have hjoins : s.Joins (s.modifyTurns place.segment fun l => l.takeUp place.ticket)
      (place :: held) [] := .takeUp hw List.mem_cons_self
    have hrelined := Relined.modifyTurns s place.segment fun l => l.takeUp place.ticket
    by_cases hfirst : ((s.lines place.segment).without place.segment mine).tickets.head? =
        some place.ticket → (s.lines place.segment).tickets.head? = some place.ticket
    · obtain ⟨htaken, hturn⟩ := takeUp_without rs hw hplace hfirst
      simp only [advancePhase, hturn]
      split
      · rw [htaken]
        refine .of_relined hrelined (takeTurns_without (h.resembles hrelined.alike.resembles)
          hjoins.spares.formed (fun p hp => ?_) _ action fun id hid => ?_)
        · exact Nat.le_trans (hmine p hp) (hjoins.spares.issued p.segment)
        · obtain ⟨e, he⟩ := Stands.there ho id hid
          obtain ⟨e', he', -⟩ := hrelined.alike.entry id e he
          exact ⟨e', he'⟩
      · exact .same htaken rfl
    · rw [Classical.not_imp] at hfirst
      obtain ⟨hsame, hturn⟩ := waits_of_head?_ne hw hfirst.2
      have hreal : s.advancePhase ⟨request, barrier, registrations,
          .inLine action held place wanted⟩ = (s, .inLine action held place wanted, []) := by
        simp only [advancePhase, hsame, hturn, Bool.false_eq_true, ↓reduceIte]
      rw [hreal]
      exact .later rfl (.refl s) rfl
  | fetching id lookup cache => exact .same rfl rfl
  | fetched id lookup cache values =>
    obtain ⟨hengine, hphase⟩ := finishLookup_recast (s := s) (P := fun p => p.releaseAll rs)
      (F := fun id l => l.without id mine) without_empty id lookup cache values
    exact .same hengine hphase
  | finished result => exact .same rfl rfl

/-! ## To the next turn -/

/-- What becomes of an operation that goes to its next turn in the store without another one, beside
what becomes of it in the store as it is. -/
inductive Pauses (s : Engine) (mine : List Place) (rs : List Registration) (o : Operation)
    (real aside : Engine × Phase) (on : Engine × Phase × List Event) : Prop where
  /-- It comes to the same turn. -/
  | same (engine : aside.1 = real.1.without mine rs) (phase : aside.2 = real.2)
  /-- It has to wait for the other one, and without it goes on as it would have. -/
  | later (unfinished : real.2.isFinished = false) (relined : s.Relined real.1)
      (catches : (real.1.without mine rs).advancePhase { o with phase := real.2 } = on)

theorem Pauses.of_relined {real aside : Engine × Phase} {on : Engine × Phase × List Event}
    (h : s.Relined s') (hb : s'.Pauses mine rs o real aside on) :
    s.Pauses mine rs o real aside on := by
  cases hb with
  | same engine phase => exact .same engine phase
  | later unfinished relined catches => exact .later unfinished (h.trans relined) catches

/-- An operation comes to its turn alike in the store without the places, or waits on. -/
theorem comeTo_without (hw : s.LinesFormed)
    (hmine : ∀ p ∈ mine, p.ticket ≤ (s.lines p.segment).issued) (o : Operation) (action : Action)
    (held : List Place) (otherwise : Phase) {wanted : List SegmentId}
    (hthere : ∀ id ∈ wanted, ∃ e, s.entries.get? id = some e) :
    s.Pauses mine rs o (s.comeTo action held otherwise wanted)
      ((s.without mine rs).comeTo action held otherwise wanted)
      ((s.without mine rs).takeTurns action held wanted) := by
  cases wanted with
  | nil => exact .same rfl rfl
  | cons id wanted =>
    obtain ⟨e, he⟩ := hthere id List.mem_cons_self
    have hreal : s.comeTo action held otherwise (id :: wanted) =
        (s.arrived id, .inLine action held ⟨id, (s.lines id).arrive.2⟩ wanted) := rfl
    have haside : (s.without mine rs).comeTo action held otherwise (id :: wanted) =
        ((s.without mine rs).arrived id,
          .inLine action held ⟨id, ((s.without mine rs).lines id).arrive.2⟩ wanted) := rfl
    have hrelined : s.Relined (s.arrived id) := .modifyTurns s id _
    rw [hreal, haside, lines_without, TurnLine.arrive_without_ticket]
    by_cases hfree : ((s.lines id).without id mine).turn = .free → (s.lines id).turn = .free
    · exact .same (arrived_without hw hmine hfree) rfl
    · rw [Classical.not_imp] at hfree
      exact .later rfl hrelined (advancePhase_arrived hw hmine he hfree.1 o action held wanted)

/-- It does so in whatever phase it is. -/
theorem comeToTurn_without (rs : List Registration) (h : s.Outlines a) (ha : a.WellFormed)
    (hw : s.LinesFormed)
    (hmine : ∀ p ∈ mine, p.ticket ≤ (s.lines p.segment).issued) (ho : o.phase.Placed s)
    (hne : ∀ target source, o.request = .merge target source → target ≠ source)
    (hapart : ∀ p ∈ o.phase.places, p ∉ mine) :
    s.Pauses mine rs o (s.comeToTurn o) ((s.without mine rs).comeToTurn o)
      ((s.without mine rs).advancePhase o) := by
  obtain ⟨request, barrier, registrations, phase⟩ := o
  cases phase with
  | accepted =>
    have haction : request.action? (s.without mine rs) = request.action? s :=
      action?_recast s _ _ request
    have hopen : (s.without mine rs).requireOpen = s.requireOpen := rfl
    simp only [comeToTurn, haction, hopen]
    cases hclosed : s.closed with
    | true =>
      simp only [requireOpen_eq, hclosed, ↓reduceIte]
      exact .same rfl rfl
    | false =>
      simp only [requireOpen_of_open hclosed]
      cases hasked : request.action? s with
      | none => exact .same rfl rfl
      | some action =>
        have hbegin : (s.without mine rs).begin barrier request =
            (s.without mine rs).takeTurns action [] action.turns :=
          begin_of_action hclosed (haction.trans hasked)
        rw [advancePhase, hbegin]
        exact comeTo_without hw hmine _ action [] .accepted
          (h.turns_of_action? ha hasked hne).2
  | inLine action held place wanted =>
    have hplace : place ∉ mine := hapart place List.mem_cons_self
    have hjoins : s.Joins (s.modifyTurns place.segment fun l => l.takeUp place.ticket)
      (place :: held) [] := .takeUp hw List.mem_cons_self
    have hrelined := Relined.modifyTurns s place.segment fun l => l.takeUp place.ticket
    by_cases hfirst : ((s.lines place.segment).without place.segment mine).tickets.head? =
        some place.ticket → (s.lines place.segment).tickets.head? = some place.ticket
    · obtain ⟨htaken, hturn⟩ := takeUp_without rs hw hplace hfirst
      simp only [comeToTurn, advancePhase, hturn]
      split
      · rw [htaken]
        refine .of_relined hrelined (comeTo_without hjoins.spares.formed (fun p hp => ?_) _ action
          (place :: held) _ fun id hid => ?_)
        · exact Nat.le_trans (hmine p hp) (hjoins.spares.issued p.segment)
        · obtain ⟨e, he⟩ := Stands.there ho id hid
          obtain ⟨e', he', -⟩ := hrelined.alike.entry id e he
          exact ⟨e', he'⟩
      · exact .same htaken rfl
    · rw [Classical.not_imp] at hfirst
      obtain ⟨hsame, hturn⟩ := waits_of_head?_ne hw hfirst.2
      have hreal : s.comeToTurn ⟨request, barrier, registrations,
          .inLine action held place wanted⟩ = (s, .inLine action held place wanted) := by
        simp only [comeToTurn, hsame, hturn, Bool.false_eq_true, ↓reduceIte]
      rw [hreal]
      exact .later rfl (.refl s) rfl
  | fetching id lookup cache => exact .same rfl rfl
  | fetched id lookup cache values => exact .same rfl rfl
  | finished result => exact .same rfl rfl

end Engine

end Segments
