import Segments.Proofs.Solitude

/-!
# Those who stand in line

The tickets of a line are those of whoever has the turn, or is offered it, and of all who wait
behind, in the order in which they came. `Spares` says what an operation does to the lines of others
with its steps: nothing. While it goes on it `Joins` lines at their ends, and when it ends it
`Clears` the places that it had.
-/

namespace Segments

/-- The ticket of whoever has a turn or is offered it. -/
def Turn.ticket? : Turn → Option Nat
  | free => none
  | offered ticket | held ticket => some ticket

namespace TurnLine

/-- The tickets of all that stand at a line, from whoever has the turn to the last in line. -/
def tickets (l : TurnLine) : List Nat := l.turn.ticket?.toList ++ l.line

/-- Nobody waits for a free turn, and the tickets in a line rise to the last one given out. -/
structure WellFormed (l : TurnLine) : Prop where
  /-- Nobody waits for a free turn. -/
  free : l.turn = .free → l.line = []
  /-- Who came first stands first. -/
  sorted : l.tickets.Pairwise (· < ·)
  /-- The tickets were given out. -/
  issued : ∀ ticket ∈ l.tickets, ticket ≤ l.issued

variable {l : TurnLine} {ticket other : Nat}

theorem wellFormed_empty : empty.WellFormed := ⟨fun _ => rfl, .nil, fun _ h => by cases h⟩

theorem holds_iff : l.holds ticket = true ↔ l.turn = .held ticket := by
  simp [holds]

/-- Whoever holds the turn is in line. -/
theorem mem_tickets_of_holds (h : l.holds ticket = true) : ticket ∈ l.tickets := by
  rw [tickets, holds_iff.mp h]
  exact List.mem_cons_self

/-- A line at which nobody stands has a free turn. -/
theorem WellFormed.tickets_eq_nil (h : l.WellFormed) : l.tickets = [] ↔ l.turn = .free := by
  constructor
  · intro hnil
    cases hturn : l.turn with
    | free => rfl
    | offered t => simp [tickets, hturn, Turn.ticket?] at hnil
    | held t => simp [tickets, hturn, Turn.ticket?] at hnil
  · intro hfree
    simp [tickets, hfree, Turn.ticket?, h.free hfree]

/-! ## Arriving -/

/-- Tickets are given out by number. -/
theorem arrive_ticket (l : TurnLine) : l.arrive.2 = l.issued + 1 := by
  unfold arrive
  simp only
  split <;> rfl

theorem arrive_issued (l : TurnLine) : l.arrive.1.issued = l.issued + 1 := by
  unfold arrive
  simp only
  split <;> rfl

/-- Whoever arrives stands last. -/
theorem WellFormed.tickets_arrive (h : l.WellFormed) :
    l.arrive.1.tickets = l.tickets ++ [l.arrive.2] := by
  unfold arrive
  cases hturn : l.turn with
  | free => simp [tickets, hturn, Turn.ticket?, h.free hturn]
  | offered t => simp [tickets, hturn, Turn.ticket?]
  | held t => simp [tickets, hturn, Turn.ticket?]

/-- A line stays well formed when somebody arrives. -/
theorem WellFormed.arrive (h : l.WellFormed) : l.arrive.1.WellFormed where
  free hfree := by
    unfold TurnLine.arrive at hfree
    cases hturn : l.turn <;> simp [hturn] at hfree
  sorted := by
    rw [h.tickets_arrive, arrive_ticket, List.pairwise_append]
    refine ⟨h.sorted, List.pairwise_singleton _ _, fun t ht t' ht' => ?_⟩
    have hle := h.issued t ht
    have heq := List.mem_singleton.mp ht'
    omega
  issued t ht := by
    rw [arrive_issued]
    rw [h.tickets_arrive, arrive_ticket] at ht
    rcases List.mem_append.mp ht with hold | hnew
    · have hle := h.issued t hold
      omega
    · have heq := List.mem_singleton.mp hnew
      omega

/-- Whoever arrives has the turn if it was free. -/
theorem holds_arrive_self (h : l.WellFormed) :
    l.arrive.1.holds l.arrive.2 = true ↔ l.turn = .free := by
  rw [holds_iff]
  unfold TurnLine.arrive
  cases hturn : l.turn with
  | free => simp
  | offered t => simp
  | held t =>
    have hle := h.issued t (by simp [tickets, hturn, Turn.ticket?])
    simp only [reduceCtorEq, iff_false, Turn.held.injEq]
    omega

/-- An arrival takes the turn from nobody. -/
theorem holds_arrive_of_le (h : ticket ≤ l.issued) :
    l.arrive.1.holds ticket = l.holds ticket := by
  rw [Bool.eq_iff_iff, holds_iff, holds_iff]
  unfold TurnLine.arrive
  cases hturn : l.turn with
  | free =>
    simp only [Turn.held.injEq, reduceCtorEq, iff_false]
    omega
  | offered t => rfl
  | held t => rfl

/-! ## Taking up the turn -/

theorem takeUp_issued (l : TurnLine) (ticket : Nat) : (l.takeUp ticket).issued = l.issued := by
  unfold takeUp
  split <;> rfl

/-- Taking up a turn changes nothing about who is in line. -/
theorem tickets_takeUp (l : TurnLine) (ticket : Nat) : (l.takeUp ticket).tickets = l.tickets := by
  unfold takeUp
  split
  · next h => simp [tickets, h, Turn.ticket?]
  · rfl

/-- A line stays well formed when a turn is taken up. -/
theorem WellFormed.takeUp (h : l.WellFormed) (ticket : Nat) : (l.takeUp ticket).WellFormed where
  free hfree := by
    unfold TurnLine.takeUp at hfree ⊢
    split at hfree
    · cases hfree
    · next hne =>
      rw [if_neg hne]
      exact h.free hfree
  sorted := by
    rw [tickets_takeUp]
    exact h.sorted
  issued := by
    rw [tickets_takeUp, takeUp_issued]
    exact h.issued

/-- A turn that is taken up is nobody else's. -/
theorem holds_takeUp_of_ne (h : other ≠ ticket) :
    (l.takeUp ticket).holds other = l.holds other := by
  rw [Bool.eq_iff_iff, holds_iff, holds_iff]
  unfold takeUp
  split
  · next hturn =>
    rw [hturn]
    simpa using h.symm
  · rfl

/-- Exactly who is offered the turn, or holds it, has it after taking it up. -/
theorem holds_takeUp_self :
    (l.takeUp ticket).holds ticket = true ↔ l.turn = .offered ticket ∨ l.turn = .held ticket := by
  rw [holds_iff]
  unfold takeUp
  split
  · next hturn => simp [hturn]
  · next hturn => simp [hturn]

/-! ## Leaving -/

theorem leave_issued (l : TurnLine) (ticket : Nat) : (l.leave ticket).issued = l.issued := by
  unfold leave pass
  split
  · split <;> rfl
  · rfl

/-- When the turn is passed on, all who waited are in line. -/
theorem tickets_pass (l : TurnLine) : l.pass.tickets = l.line := by
  unfold pass
  split
  · next h => simp [tickets, Turn.ticket?, h]
  · next h => simp [tickets, Turn.ticket?, h]

/-- Whoever leaves stands there no more, and the others stay in their order. -/
theorem WellFormed.tickets_leave (h : l.WellFormed) (ticket : Nat) :
    (l.leave ticket).tickets = l.tickets.filter fun t => decide (t ≠ ticket) := by
  unfold leave
  split
  · next hturn =>
    have htickets : l.tickets = ticket :: l.line := by
      rcases hturn with hturn | hturn <;> simp [tickets, hturn, Turn.ticket?]
    have hsorted := h.sorted
    rw [htickets, List.pairwise_cons] at hsorted
    have hrest : l.line.filter (fun t => decide (t ≠ ticket)) = l.line := by
      refine List.filter_eq_self.mpr fun t ht => ?_
      have hlt := hsorted.1 t ht
      simp only [ne_eq, decide_eq_true_eq]
      omega
    rw [tickets_pass, htickets, List.filter_cons_of_neg (by simp), hrest]
  · next hturn =>
    rw [not_or] at hturn
    have hfirst : l.turn.ticket?.toList.filter (fun t => decide (t ≠ ticket)) =
        l.turn.ticket?.toList := by
      refine List.filter_eq_self.mpr fun t ht => ?_
      cases hl : l.turn with
      | free => simp [hl, Turn.ticket?] at ht
      | offered t' => simp_all [Turn.ticket?]
      | held t' => simp_all [Turn.ticket?]
    rw [tickets, tickets, List.filter_append, hfirst]
    exact congrArg _ (List.filter_congr fun t _ => by rw [Bool.eq_iff_iff]; simp)

/-- A line stays well formed when somebody leaves. -/
theorem WellFormed.leave (h : l.WellFormed) (ticket : Nat) : (l.leave ticket).WellFormed where
  free hfree := by
    unfold TurnLine.leave at hfree ⊢
    split at hfree
    · next hturn =>
      rw [if_pos hturn]
      unfold pass at hfree ⊢
      split at hfree
      · next hline => simp [hline]
      · cases hfree
    · next hturn =>
      rw [if_neg hturn]
      simp [h.free hfree]
  sorted := by
    rw [h.tickets_leave]
    exact h.sorted.filter _
  issued t ht := by
    rw [leave_issued]
    rw [h.tickets_leave] at ht
    exact h.issued t (List.mem_filter.mp ht).1

/-- Nobody gets or loses a turn by the leaving of another; it may be offered to somebody. -/
theorem holds_leave_of_ne (h : other ≠ ticket) : (l.leave ticket).holds other = l.holds other := by
  rw [Bool.eq_iff_iff, holds_iff, holds_iff]
  unfold leave
  split
  · next hturn =>
    have hnot : l.turn ≠ .held other := by
      rcases hturn with hturn | hturn <;> rw [hturn] <;> simp [Ne.symm h]
    simp only [hnot, iff_false]
    unfold pass
    split <;> simp
  · rfl

end TurnLine

namespace Engine

/-- The line of a segment. -/
def lines (s : Engine) (id : SegmentId) : TurnLine := (s.entry id).turns

/-- Whether a place has the turn is up to its line. -/
theorem hasTurn_eq (s : Engine) (p : Place) : s.hasTurn p = (s.lines p.segment).holds p.ticket :=
  rfl

variable {s s' s'' : Engine} {a : Account} {id : SegmentId}

/-- The lines are read off the entries. -/
theorem lines_of_entries (h : s'.entries = s.entries) : s'.lines = s.lines := by
  funext id
  rw [lines, lines, entry, entry, h]

/-- Changing an entry changes it alone. -/
theorem entry_modifyEntry (s : Engine) (id j : SegmentId) (f : Entry → Entry) :
    (s.modifyEntry id f).entry j =
      if j = id ∧ (s.entries.get? id).isSome then f (s.entry j) else s.entry j := by
  unfold entry modifyEntry
  rw [Table.get?_modify]
  by_cases hj : j = id
  · subst hj
    cases s.entries.get? j <;> simp
  · simp [hj]

/-- The lines are as they were when an entry changes in anything else. -/
theorem lines_modifyEntry (s : Engine) (id : SegmentId) {f : Entry → Entry}
    (hf : ∀ e, (f e).turns = e.turns) : (s.modifyEntry id f).lines = s.lines := by
  funext j
  rw [lines, lines, entry_modifyEntry]
  split
  · exact hf _
  · rfl

/-- Somebody can come to the line of a segment only if the segment is there. -/
theorem exists_of_mem_tickets {ticket : Nat} (h : ticket ∈ (s.lines id).tickets) :
    ∃ e, s.entries.get? id = some e := by
  cases he : s.entries.get? id with
  | none =>
    rw [lines, entry, he] at h
    cases h
  | some e => exact ⟨e, rfl⟩

/-- Changing a line changes it alone. -/
theorem lines_modifyTurns {e : Entry} (he : s.entries.get? id = some e) (f : TurnLine → TurnLine)
    (j : SegmentId) :
    (s.modifyTurns id f).lines j = if j = id then f (s.lines j) else s.lines j := by
  unfold lines modifyTurns
  rw [entry_modifyEntry, he]
  by_cases hj : j = id <;> simp [hj]

/-! ## What leaves the lines alone -/

theorem lines_touch (s : Engine) (id : SegmentId) (ids : List AttributeId) :
    (s.touch id ids).lines = s.lines := lines_modifyEntry s id fun _ => rfl

theorem lines_touchConsulted (s : Engine) (action : Action) :
    (s.touchConsulted action).lines = s.lines := by
  unfold touchConsulted touchConsultedBy
  split
  · split
    · exact lines_touch s _ _
    · rfl
  · split
    · exact lines_touch s _ _
    · rfl
  · rfl

/-- Applying attribute values changes no line. -/
theorem lines_applyAttributes (s : Engine) (id : SegmentId) (values : AttributeValues) :
    (s.applyAttributes id values).1.lines = s.lines := lines_modifyEntry s id fun _ => rfl

/-- A record that is applied leaves the lines alone; nobody stands at the line of a new segment. -/
theorem lines_enact (s : Engine) (callerName : String) {record : Record}
    (hnew : ∀ id name values, record = .create id name values → s.entries.get? id = none) :
    (s.enact callerName record).1.lines = s.lines := by
  cases record with
  | create id name values =>
    funext j
    have hfresh := hnew id name values rfl
    unfold lines entry enact
    rw [Table.get?_insert]
    split
    · next hj =>
      subst hj
      rw [hfresh]
      rfl
    · rfl
  | append id offset data values =>
    have hgrown := lines_modifyEntry s id (f := fun e => { e with
      data := e.data ++ data
      metadata := { e.metadata with length := e.metadata.length + data.length } }) fun _ => rfl
    exact ((lines_modifyEntry _ id (f := Entry.publish) fun _ => rfl).trans
      (lines_applyAttributes _ id values)).trans hgrown
  | updateAttributes id values => exact lines_applyAttributes s id values
  | sealing id length => exact lines_modifyEntry s id fun _ => rfl
  | truncate id offset => exact lines_modifyEntry s id fun _ => rfl
  | delete id =>
    simp only [enact, dropStored_fst]
    exact lines_modifyEntry s id fun _ => rfl
  | merge target source sourceLength offset =>
    simp only [enact, dropStored_fst]
    refine (lines_modifyEntry _ source ?_).trans (lines_modifyEntry s target ?_)
    · exact fun _ => rfl
    · exact fun _ => rfl

/-- A segment that is to be created has no entry yet. -/
theorem Outlines.noEntry_of_create (h : s.Outlines a) {action : Action} {id : SegmentId}
    {name : String} {values : AttributeValues} (hp : s.Proposes action (.create id name values)) :
    s.entries.get? id = none := by
  cases hp with
  | create free evaluated =>
    refine Option.eq_none_iff_forall_ne_some.mpr fun e he => ?_
    exact Nat.lt_irrefl _ (h.numbered he)

/-- A change leaves the lines alone. -/
theorem lines_execute (h : s.Outlines a) (action : Action) :
    (s.execute action).1.lines = s.lines := by
  have htouched := lines_touchConsulted s action
  have hexecutes := s.executes action
  generalize (s.execute action).1 = s', (s.execute action).2.2 = result at hexecutes ⊢
  cases hexecutes with
  | refused proposed => exact htouched
  | idles proposed => exact htouched
  | fails proposed appended => exact htouched
  | @commits record answer log n proposed appended =>
    refine (lines_enact _ _ fun id name values hrecord => ?_).trans htouched
    exact (Alike.touchConsulted s action).noEntry id (h.noEntry_of_create
      (proposes_iff.mpr ⟨answer, hrecord ▸ proposed⟩))

/-- Opening a reader changes no line. -/
theorem lines_openReader (s : Engine) (name : String) (offset maxLength : Nat) :
    (s.openReader name offset maxLength).1.lines = s.lines := by
  unfold openReader
  split
  · rfl
  · simp only
    split
    · rfl
    · split
      · rfl
      · split
        · rfl
        · exact lines_modifyEntry s _ fun _ => rfl

/-- Finishing a look-up changes no line. -/
theorem lines_finishLookup (s : Engine) (id : SegmentId) (l : AttributeLookup) (cache : Bool)
    (values : AttributeValues) : (s.finishLookup id l cache values).1.lines = s.lines := by
  unfold finishLookup
  simp only
  split
  · exact lines_modifyEntry s id fun _ => rfl
  · rfl

/-- Writing values through changes no line. -/
theorem lines_writeThrough (s : Engine) (id : SegmentId) :
    (s.writeThrough id).1.lines = s.lines := by
  unfold writeThrough
  split
  · rfl
  · exact lines_modifyEntry s id fun _ => rfl

theorem lines_writeAllThrough (s : Engine) (ids : List SegmentId) :
    (s.writeAllThrough ids).1.lines = s.lines := by
  induction ids generalizing s with
  | nil => rfl
  | cons id ids ih => exact (ih _).trans (lines_writeThrough s id)

/-- Evicting a segment changes no line. -/
theorem lines_evict (h : s.Outlines a) (name : String) : (s.evict name).1.lines = s.lines := by
  unfold evict
  cases hr : s.resolve name with
  | error e => rfl
  | ok e =>
    obtain ⟨id, -, hl⟩ := resolve_eq_ok hr
    obtain ⟨g, -, he, rfl, -⟩ := h.of_live hl
    funext j
    unfold lines entry
    simp only
    rw [Table.get?_insert]
    split
    · next hj =>
      rw [hj, Entry.id, he]
      rfl
    · rfl

/-- Shutting the store down changes no line. -/
theorem lines_shutdown (s : Engine) : s.shutdown.1.lines = s.lines := by
  cases hc : s.closed with
  | true => simp only [shutdown, hc, ↓reduceIte]
  | false =>
    rw [shutdown_fst s hc]
    exact lines_writeAllThrough _ _

/-- Settling an operation changes no line. -/
theorem lines_settle (s : Engine) (o : Operation) : (s.settle o).lines = s.lines := by
  unfold settle
  split <;> rfl

end Engine

end Segments
