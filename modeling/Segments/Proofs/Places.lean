import Segments.Proofs.Lines
import Segments.Proofs.History

/-!
# Places in line

What the steps of one operation do to the lines. While it goes on it `Joins` lines at their ends;
when it ends it `Clears` the places that it had; and in both cases it `Spares` all others, who keep
their places and their turns. The places that it has in the meantime stand in a certain order:
segments are waited for from the oldest to the youngest, with the turns of all older ones held.
-/

namespace Segments

/-- The tickets of some places at a segment, in the order in which they were given out; of the
places the latest comes first. -/
def ticketsAt (places : List Place) (id : SegmentId) : List Nat :=
  ((places.filter fun p => decide (p.segment = id)).map Place.ticket).reverse

/-- A ticket stands at a segment exactly if its place is among the places. -/
theorem mem_ticketsAt {places : List Place} {id : SegmentId} {ticket : Nat} :
    ticket ∈ ticketsAt places id ↔ ⟨id, ticket⟩ ∈ places := by
  rw [ticketsAt, List.mem_reverse, List.mem_map]
  constructor
  · rintro ⟨p, hp, rfl⟩
    obtain ⟨hmem, hsegment⟩ := List.mem_filter.mp hp
    rw [← of_decide_eq_true hsegment]
    exact hmem
  · intro h
    exact ⟨_, List.mem_filter.mpr ⟨h, by simp⟩, rfl⟩

/-- Tickets of new places stand behind those of old ones. -/
theorem ticketsAt_append (new old : List Place) (id : SegmentId) :
    ticketsAt (new ++ old) id = ticketsAt old id ++ ticketsAt new id := by
  rw [ticketsAt, List.filter_append, List.map_append, List.reverse_append]
  rfl

namespace Engine

variable {s s' s'' : Engine} {a : Account} {own : List Place}

/-- All lines are well-formed. -/
def LinesFormed (s : Engine) : Prop := ∀ id, (s.lines id).WellFormed

/-- An operation with certain places leaves all others where they stand, with the turns that they
have. -/
structure Spares (s s' : Engine) (own : List Place) : Prop where
  /-- The lines are well-formed again. -/
  formed : s'.LinesFormed
  /-- No ticket is given out twice. -/
  issued : ∀ id, (s.lines id).issued ≤ (s'.lines id).issued
  /-- Others have the turns that they had, and no more. -/
  holds : ∀ p : Place, p.ticket ≤ (s.lines p.segment).issued → p ∉ own →
    s'.hasTurn p = s.hasTurn p

/-- An operation with certain places has come to more of them, each at the end of a line. -/
structure Joins (s s' : Engine) (own arrived : List Place) : Prop where
  /-- The others stay where they are. -/
  spares : s.Spares s' own
  /-- The new places are at the ends of the lines. -/
  tickets : ∀ id, (s'.lines id).tickets = (s.lines id).tickets ++ ticketsAt arrived id
  /-- Their tickets are new. -/
  fresh : ∀ p ∈ arrived, (s.lines p.segment).issued < p.ticket

/-- An operation has left its places. -/
structure Clears (s s' : Engine) (own : List Place) : Prop where
  /-- The others stay where they are. -/
  spares : s.Spares s' own
  /-- Only its places are gone from the lines. -/
  tickets : ∀ id, (s'.lines id).tickets =
    (s.lines id).tickets.filter fun ticket => decide (⟨id, ticket⟩ ∉ own)

/-- Lines that do not change spare everybody. -/
theorem Spares.of_lines (h : s.LinesFormed) (hl : s'.lines = s.lines) : s.Spares s' own where
  formed id := by
    rw [hl]
    exact h id
  issued id := Nat.le_of_eq (by rw [hl])
  holds p _ _ := by rw [hasTurn_eq, hasTurn_eq, hl]

/-- Lines that do not change have no new places. -/
theorem Joins.of_lines (h : s.LinesFormed) (hl : s'.lines = s.lines) : s.Joins s' own [] :=
  ⟨.of_lines h hl, fun id => by rw [hl]; exact (List.append_nil _).symm, List.forall_mem_nil _⟩

/-- Who has no places leaves none. -/
theorem Clears.of_lines (h : s.LinesFormed) (hl : s'.lines = s.lines) : s.Clears s' [] :=
  ⟨.of_lines h hl, fun id => by
    rw [hl]
    exact (List.filter_eq_self.mpr fun _ _ => by simp).symm⟩

/-- An operation comes to more places twice. -/
theorem Joins.trans {arrived more : List Place} (h : s.Joins s' own arrived)
    (h' : s'.Joins s'' (arrived ++ own) more) : s.Joins s'' own (more ++ arrived) := by
  refine ⟨⟨h'.spares.formed, fun id => ?_, fun p hp hown => ?_⟩, fun id => ?_, fun p hp => ?_⟩
  · exact Nat.le_trans (h.spares.issued id) (h'.spares.issued id)
  · have hnew : p ∉ arrived ++ own := by
      intro hin
      rcases List.mem_append.mp hin with hin | hin
      · exact Nat.not_lt.mpr hp (h.fresh p hin)
      · exact hown hin
    exact (h'.spares.holds p (Nat.le_trans hp (h.spares.issued _)) hnew).trans
      (h.spares.holds p hp hown)
  · rw [h'.tickets, h.tickets, ticketsAt_append, List.append_assoc]
  · rcases List.mem_append.mp hp with hmore | harrived
    · exact Nat.lt_of_le_of_lt (h.spares.issued _) (h'.fresh p hmore)
    · exact h.fresh p harrived

/-- Who comes to more places and leaves all of them has left those that it had. -/
theorem Joins.clears {arrived : List Place} (hw : s.LinesFormed) (h : s.Joins s' own arrived)
    (h' : s'.Clears s'' (arrived ++ own)) : s.Clears s'' own := by
  have hnew : ∀ p : Place, p.ticket ≤ (s.lines p.segment).issued → p ∉ own →
      p ∉ arrived ++ own := by
    intro p hp hown hin
    rcases List.mem_append.mp hin with hin | hin
    · exact Nat.not_lt.mpr hp (h.fresh p hin)
    · exact hown hin
  refine ⟨⟨h'.spares.formed, fun id => ?_, fun p hp hown => ?_⟩, fun id => ?_⟩
  · exact Nat.le_trans (h.spares.issued id) (h'.spares.issued id)
  · exact (h'.spares.holds p (Nat.le_trans hp (h.spares.issued _)) (hnew p hp hown)).trans
      (h.spares.holds p hp hown)
  · have hgone : (ticketsAt arrived id).filter
        (fun ticket => decide (⟨id, ticket⟩ ∉ arrived ++ own)) = [] := by
      refine List.filter_eq_nil_iff.mpr fun ticket ht => ?_
      simp [mem_ticketsAt.mp ht]
    rw [h'.tickets, h.tickets, List.filter_append, hgone, List.append_nil]
    refine List.filter_congr fun ticket ht => ?_
    by_cases hown : (⟨id, ticket⟩ : Place) ∈ own
    · simp [hown]
    · have hnot := hnew ⟨id, ticket⟩ ((hw id).issued ticket ht) hown
      rw [decide_eq_true hown, decide_eq_true hnot]

/-- Left places stay left while the lines do not change. -/
theorem Clears.of_lines_eq (h : s.Clears s' own) (hl : s''.lines = s'.lines) :
    s.Clears s'' own where
  spares := ⟨fun id => by rw [hl]; exact h.spares.formed id,
    fun id => by rw [hl]; exact h.spares.issued id,
    fun p hp hown => by rw [hasTurn_eq, hl]; exact h.spares.holds p hp hown⟩
  tickets id := by rw [hl, h.tickets]

/-- An operation has its places while the lines do not change. -/
theorem Joins.of_lines_eq {arrived : List Place} (h : s.Joins s' own arrived)
    (hl : s''.lines = s'.lines) : s.Joins s'' own arrived where
  spares := ⟨fun id => by rw [hl]; exact h.spares.formed id,
    fun id => by rw [hl]; exact h.spares.issued id,
    fun p hp hown => by rw [hasTurn_eq, hl]; exact h.spares.holds p hp hown⟩
  tickets id := by rw [hl, h.tickets]
  fresh := h.fresh

/-! ## One line -/

/-- What a change of turns does to a line, if it does nothing where nobody has come. -/
theorem lines_modifyTurns_of_empty (s : Engine) (id : SegmentId) {f : TurnLine → TurnLine}
    (hf : f .empty = .empty) (j : SegmentId) :
    (s.modifyTurns id f).lines j = if j = id then f (s.lines j) else s.lines j := by
  cases he : s.entries.get? id with
  | some e => exact lines_modifyTurns he f j
  | none =>
    have hline : s.lines id = .empty := by
      rw [lines, entry, he]
      rfl
    rw [modifyTurns, lines, entry_modifyEntry, he]
    split
    · next h => simp at h
    · split
      · next hj =>
        subst hj
        rw [hline, hf]
        exact hline
      · rfl

/-- Somebody takes up a turn that is offered. -/
theorem Joins.takeUp (h : s.LinesFormed) {place : Place} (hp : place ∈ own) :
    s.Joins (s.modifyTurns place.segment fun l => l.takeUp place.ticket) own [] := by
  have hl := lines_modifyTurns_of_empty s place.segment (f := fun l => l.takeUp place.ticket)
    (by simp [TurnLine.takeUp, TurnLine.empty])
  refine ⟨⟨fun id => ?_, fun id => ?_, fun p _ hown => ?_⟩, fun id => ?_, List.forall_mem_nil _⟩
  · rw [hl]
    split
    · exact (h id).takeUp _
    · exact h id
  · rw [hl]
    split
    · exact Nat.le_of_eq (TurnLine.takeUp_issued _ _).symm
    · exact Nat.le_refl _
  · rw [hasTurn_eq, hasTurn_eq, hl]
    split
    · next hsegment =>
      refine TurnLine.holds_takeUp_of_ne fun hticket => hown ?_
      obtain ⟨segment, ticket⟩ := p
      obtain rfl : segment = place.segment := hsegment
      obtain rfl : ticket = place.ticket := hticket
      exact hp
    · rfl
  · rw [hl]
    split
    · exact (TurnLine.tickets_takeUp _ _).trans (List.append_nil _).symm
    · exact (List.append_nil _).symm

/-- Somebody comes to the line of a segment that is there. -/
theorem Joins.arrive (h : s.LinesFormed) {id : SegmentId} {e : Entry}
    (he : s.entries.get? id = some e) :
    s.Joins (s.modifyTurns id fun _ => (s.entry id).turns.arrive.1) own
      [⟨id, (s.entry id).turns.arrive.2⟩] := by
  have hl := lines_modifyTurns he (fun _ => (s.entry id).turns.arrive.1)
  have hline : (s.entry id).turns = s.lines id := rfl
  rw [hline] at hl ⊢
  refine ⟨⟨fun j => ?_, fun j => ?_, fun p hp _ => ?_⟩, fun j => ?_, fun p hp => ?_⟩
  · rw [hl]
    split
    · exact (h id).arrive
    · exact h j
  · rw [hl]
    split
    · next hj =>
      rw [hj, TurnLine.arrive_issued]
      exact Nat.le_succ _
    · exact Nat.le_refl _
  · rw [hasTurn_eq, hasTurn_eq, hl]
    split
    · next hj =>
      rw [hj] at hp ⊢
      exact TurnLine.holds_arrive_of_le hp
    · rfl
  · rw [hl]
    split
    · next hj =>
      rw [hj, (h id).tickets_arrive]
      simp [ticketsAt]
    · next hj => simp [ticketsAt, Ne.symm hj]
  · rw [List.mem_singleton.mp hp]
    exact Nat.lt_of_lt_of_eq (Nat.lt_succ_self _) (TurnLine.arrive_ticket _).symm

/-- Somebody leaves a place. -/
theorem Clears.leave (h : s.LinesFormed) (p : Place) :
    s.Clears (s.modifyTurns p.segment fun l => l.leave p.ticket) [p] := by
  have hl := lines_modifyTurns_of_empty s p.segment (f := fun l => l.leave p.ticket)
    (by simp [TurnLine.leave, TurnLine.empty])
  refine ⟨⟨fun id => ?_, fun id => ?_, fun q _ hq => ?_⟩, fun id => ?_⟩
  · rw [hl]
    split
    · exact (h id).leave _
    · exact h id
  · rw [hl]
    split
    · exact Nat.le_of_eq (TurnLine.leave_issued _ _).symm
    · exact Nat.le_refl _
  · rw [hasTurn_eq, hasTurn_eq, hl]
    split
    · next hsegment =>
      refine TurnLine.holds_leave_of_ne fun hticket => hq ?_
      obtain ⟨segment, ticket⟩ := q
      obtain rfl : segment = p.segment := hsegment
      obtain rfl : ticket = p.ticket := hticket
      exact List.mem_singleton_self p
    · rfl
  · rw [hl]
    obtain ⟨segment, ticket⟩ := p
    split
    · next hid =>
      rw [hid, (h segment).tickets_leave]
      exact List.filter_congr fun t _ => by simp
    · next hid => exact (List.filter_eq_self.mpr fun t _ => by simp [hid]).symm

/-- Somebody leaves some places, one after another. -/
theorem Clears.leaveAll (h : s.LinesFormed) (places : List Place) :
    s.Clears (s.leaveAll places) places := by
  induction places generalizing s with
  | nil => exact .of_lines h rfl
  | cons p places ih =>
    have hfirst := Clears.leave h p
    have hrest := ih hfirst.spares.formed
    refine ⟨⟨hrest.spares.formed, fun id => ?_, fun q hq hown => ?_⟩, fun id => ?_⟩
    · exact Nat.le_trans (hfirst.spares.issued id) (hrest.spares.issued id)
    · rw [List.mem_cons, not_or] at hown
      exact (hrest.spares.holds q (Nat.le_trans hq (hfirst.spares.issued _)) hown.2).trans
        (hfirst.spares.holds q hq fun hin => hown.1 (List.mem_singleton.mp hin))
    · refine (hrest.tickets id).trans ?_
      rw [hfirst.tickets, List.filter_filter]
      refine List.filter_congr fun t _ => ?_
      by_cases hp : (⟨id, t⟩ : Place) = p <;> by_cases hin : (⟨id, t⟩ : Place) ∈ places <;>
        simp [hp, hin]

/-! ## The places of one operation -/

/-- How an operation stands that has some turns and has come to the line of one more segment. -/
structure Stands (s : Engine) (held : List Place) (place : Place) (wanted : List SegmentId) :
    Prop where
  /-- It has the turns of the places behind it. -/
  turns : ∀ p ∈ held, s.hasTurn p = true
  /-- It stands at the last line. -/
  inLine : place.ticket ∈ (s.lines place.segment).tickets
  /-- Older segments come first. -/
  order : (wanted.reverse ++ place.segment :: held.map Place.segment).Pairwise (· > ·)
  /-- The segments to come are there. -/
  there : ∀ id ∈ wanted, ∃ e, s.entries.get? id = some e

end Engine

/-- Whether an operation that has come so far stands in line as it should. -/
def Phase.Placed (s : Engine) : Phase → Prop
  | inLine _ held place wanted => s.Stands held place wanted
  | _ => True

namespace Engine

variable {s s' s'' : Engine} {a : Account} {own : List Place}

/-- What a step of an operation with certain places does to the lines. -/
inductive Queues (s : Engine) (own : List Place) : Engine → Phase → Prop where
  /-- It goes on, perhaps with more places. -/
  | stays {s' : Engine} {phase : Phase} (arrived : List Place)
      (unfinished : phase.isFinished = false) (places : phase.places = arrived ++ own)
      (joins : s.Joins s' own arrived) (placed : phase.Placed s') : Queues s own s' phase
  /-- It ends. -/
  | ends {s' : Engine} (result : Except SegmentError Answer) (clears : s.Clears s' own) :
      Queues s own s' (.finished result)

/-- How an operation stands that has come to the line of a younger segment than those whose turns it
has. -/
theorem arrive_stands (hw : s.LinesFormed) {held : List Place} {id : SegmentId}
    {wanted : List SegmentId} {e : Entry} (he : s.entries.get? id = some e)
    (hheld : ∀ p ∈ held, s.hasTurn p = true)
    (horder : ((id :: wanted).reverse ++ held.map Place.segment).Pairwise (· > ·))
    (hthere : ∀ j ∈ id :: wanted, ∃ e, s.entries.get? j = some e) :
    s.Joins (s.modifyTurns id fun _ => (s.entry id).turns.arrive.1) held
        [⟨id, (s.entry id).turns.arrive.2⟩] ∧
      Stands (s.modifyTurns id fun _ => (s.entry id).turns.arrive.1) held
        ⟨id, (s.entry id).turns.arrive.2⟩ wanted := by
  have hjoins : s.Joins (s.modifyTurns id fun _ => (s.entry id).turns.arrive.1) held
    [⟨id, (s.entry id).turns.arrive.2⟩] := .arrive hw he
  rw [List.reverse_cons, List.append_assoc] at horder
  refine ⟨hjoins, fun p hp => ?_, ?_, horder, fun j hj => ?_⟩
  · have htail := (List.pairwise_append.mp horder).2.1
    have hyounger : p.segment < id := (List.pairwise_cons.mp htail).1 _ (List.mem_map_of_mem hp)
    rw [hasTurn_eq, lines_modifyTurns he, if_neg (Nat.ne_of_lt hyounger)]
    exact hheld p hp
  · rw [hjoins.tickets]
    exact List.mem_append_right _ (mem_ticketsAt.mpr List.mem_cons_self)
  · obtain ⟨c, hc⟩ := hthere j (List.mem_cons_of_mem _ hj)
    obtain ⟨c', hc', -⟩ := (Alike.modifyTurns s id fun _ =>
      (s.entry id).turns.arrive.1).entry j c hc
    exact ⟨c', hc'⟩

/-- An operation takes the turns that it wants as far as they are free. -/
theorem takeTurns_queues (h : s.Outlines a) (hw : s.LinesFormed) (action : Action)
    {held : List Place} {wanted : List SegmentId} (hheld : ∀ p ∈ held, s.hasTurn p = true)
    (horder : (wanted.reverse ++ held.map Place.segment).Pairwise (· > ·))
    (hthere : ∀ id ∈ wanted, ∃ e, s.entries.get? id = some e) :
    Queues s held (s.takeTurns action held wanted).1 (s.takeTurns action held wanted).2.1 := by
  induction wanted generalizing s held with
  | nil =>
    unfold takeTurns
    cases s.requireOpen with
    | error e => exact .ends _ (.leaveAll hw held)
    | ok u =>
      have hsame := lines_execute h action
      have hjoins : s.Joins (s.execute action).1 held [] := .of_lines hw hsame
      exact .ends _ (hjoins.clears hw (.leaveAll hjoins.spares.formed held))
  | cons id wanted ih =>
    obtain ⟨e, he⟩ := hthere id List.mem_cons_self
    obtain ⟨hjoins, hstands⟩ := arrive_stands hw he hheld horder hthere
    have halike := Alike.modifyTurns s id fun _ => (s.entry id).turns.arrive.1
    unfold takeTurns
    simp only
    split
    · next hturn =>
      have hheld' : ∀ p ∈ (⟨id, (s.entry id).turns.arrive.2⟩ : Place) :: held,
          (s.modifyTurns id fun _ => (s.entry id).turns.arrive.1).hasTurn p = true :=
        List.forall_mem_cons.mpr ⟨hturn, hstands.turns⟩
      have hrest := ih (h.resembles halike.resembles) hjoins.spares.formed hheld' hstands.order
        hstands.there
      generalize (takeTurns _ action _ wanted).1 = s₁, (takeTurns _ action _ wanted).2.1 = phase
        at hrest
      cases hrest with
      | stays arrived unfinished places joins placed =>
        exact .stays (arrived ++ [⟨id, (s.entry id).turns.arrive.2⟩]) unfinished
          (by rw [places, List.append_assoc]; rfl) (hjoins.trans joins) placed
      | ends result clears => exact .ends _ (hjoins.clears hw clears)
    · exact .stays [⟨id, (s.entry id).turns.arrive.2⟩] rfl rfl hjoins hstands

/-- A step that does not come to a line. -/
theorem queues_of_lines (hw : s.LinesFormed) {phase : Phase} (hplaces : phase.places = [])
    (hl : s'.lines = s.lines) : Queues s [] s' phase := by
  cases phase with
  | finished result => exact .ends result (.of_lines hw hl)
  | inLine action held place wanted => cases hplaces
  | accepted => exact .stays [] rfl rfl (.of_lines hw hl) trivial
  | fetching id lookup cache => exact .stays [] rfl rfl (.of_lines hw hl) trivial
  | fetched id lookup cache values => exact .stays [] rfl rfl (.of_lines hw hl) trivial

/-- A step that goes on only from a check. -/
theorem queues_ofCheck (hw : s.LinesFormed) {α : Type} {check : Except SegmentError α}
    {next : α → Engine × Phase × List Event}
    (h : ∀ v, check = .ok v → Queues s [] (next v).1 (next v).2.1) :
    Queues s [] (Phase.ofCheck s check next).1 (Phase.ofCheck s check next).2.1 := by
  cases check with
  | error e => exact .ends _ (.of_lines hw rfl)
  | ok v => exact h v rfl

/-- A name that is resolved stands for an entry that is there. -/
theorem Outlines.of_resolve (h : s.Outlines a) {name : String} {e : Entry}
    (hr : s.resolve name = .ok e) :
    s.names.get? name = some e.id ∧ s.entries.get? e.id = some e := by
  obtain ⟨id, hn, hl⟩ := resolve_eq_ok hr
  obtain ⟨g, -, he, rfl, -⟩ := h.of_live hl
  exact ⟨hn, he⟩

/-- Two names stand for two segments. -/
theorem Outlines.resolve_ne (h : s.Outlines a) (ha : a.WellFormed) {target source : String}
    (hne : target ≠ source) {t u : Entry} (ht : s.resolve target = .ok t)
    (hu : s.resolve source = .ok u) : t.id ≠ u.id := by
  intro heq
  have htarget := (h.of_resolve ht).1
  rw [heq] at htarget
  exact hne ((h.consistent ha).injective _ _ _ htarget (h.of_resolve hu).1)

/-- The turns that a change takes are of segments that are there, and the older one comes first. -/
theorem Outlines.turns_of_action? (h : s.Outlines a) (ha : a.WellFormed) {request : Request}
    {action : Action} (haction : request.action? s = some action)
    (hne : ∀ target source, request = .merge target source → target ≠ source) :
    (action.turns.reverse ++ ([] : List Place).map Place.segment).Pairwise (· > ·) ∧
      ∀ id ∈ action.turns, ∃ e, s.entries.get? id = some e := by
  have hfound : ∀ {name e}, s.resolve? name = some e → ∀ id ∈ [e.id],
      ∃ e, s.entries.get? id = some e := by
    intro name e he id hid
    rw [List.mem_singleton.mp hid]
    exact ⟨e, (h.of_resolve (resolve_of_resolve? he)).2⟩
  cases request with
  | create name updates =>
    obtain rfl := Option.some.inj haction
    exact ⟨.nil, List.forall_mem_nil _⟩
  | append name data updates =>
    obtain ⟨e, -, rfl⟩ := Option.map_eq_some_iff.mp haction
    exact ⟨.nil, List.forall_mem_nil _⟩
  | update name updates =>
    obtain ⟨e, -, rfl⟩ := Option.map_eq_some_iff.mp haction
    exact ⟨.nil, List.forall_mem_nil _⟩
  | appendAt name | sealing name | delete name | truncate name =>
    obtain ⟨e, he, rfl⟩ := Option.map_eq_some_iff.mp haction
    exact ⟨List.pairwise_singleton _ _, hfound he⟩
  | merge target source =>
    rw [Request.action?] at haction
    split at haction
    · next t u ht hu =>
      obtain rfl := Option.some.inj haction
      have hids := h.resolve_ne ha (hne target source rfl) (resolve_of_resolve? ht)
        (resolve_of_resolve? hu)
      have ht' := hfound ht t.id List.mem_cons_self
      have hu' := hfound hu u.id List.mem_cons_self
      by_cases hlt : t.id < u.id
      · simp only [Action.turns, hlt, ↓reduceIte]
        exact ⟨by simpa using hlt,
          List.forall_mem_cons.mpr ⟨ht', List.forall_mem_cons.mpr ⟨hu', List.forall_mem_nil _⟩⟩⟩
      · have hlt' : u.id < t.id := Nat.lt_of_le_of_ne (Nat.le_of_not_lt hlt) hids.symm
        simp only [Action.turns, hlt, ↓reduceIte]
        exact ⟨by simpa using hlt',
          List.forall_mem_cons.mpr ⟨hu', List.forall_mem_cons.mpr ⟨ht', List.forall_mem_nil _⟩⟩⟩
    · cases haction
  | lookup name ids cache => cases haction
  | read name offset maxLength => cases haction
  | info name wait => cases haction

/-- An operation that begins has no places to leave. -/
theorem begin_queues (h : s.Outlines a) (ha : a.WellFormed) (hw : s.LinesFormed) (barrier : Nat)
    {request : Request} (hne : ∀ target source, request = .merge target source → target ≠ source) :
    Queues s [] (s.begin barrier request).1 (s.begin barrier request).2.1 := by
  cases hq : request.changes with
  | true =>
    rcases begin_of_changes s barrier hq with ⟨e, he⟩ | ⟨action, haction, he⟩
    · rw [he]
      exact .ends _ (.of_lines hw rfl)
    · obtain ⟨horder, hthere⟩ := h.turns_of_action? ha haction hne
      rw [he]
      exact takeTurns_queues h hw action (List.forall_mem_nil _) horder hthere
  | false =>
    cases request with
    | lookup name ids cache =>
      refine queues_ofCheck hw fun _ _ => queues_ofCheck hw fun e _ =>
        queues_ofCheck hw fun _ _ => ?_
      simp only
      split
      · exact .ends _ (.of_lines hw (lines_touch s _ _))
      · exact queues_of_lines hw rfl (lines_touch s _ _)
    | read name offset maxLength =>
      exact queues_ofCheck hw fun _ _ => .ends _ (.of_lines hw (lines_openReader s _ _ _))
    | info name wait =>
      simp only [begin, describe]
      split
      · exact queues_of_lines hw rfl rfl
      · exact queues_of_lines hw rfl rfl
    | _ => cases hq

/-- An operation comes to the line of a segment that is there. -/
theorem comeTo_queues (hw : s.LinesFormed) {action : Action} {held : List Place}
    {otherwise : Phase} {wanted : List SegmentId} (hheld : ∀ p ∈ held, s.hasTurn p = true)
    (horder : (wanted.reverse ++ held.map Place.segment).Pairwise (· > ·))
    (hthere : ∀ id ∈ wanted, ∃ e, s.entries.get? id = some e)
    (hotherwise : wanted = [] → Queues s held s otherwise) :
    Queues s held (s.comeTo action held otherwise wanted).1
      (s.comeTo action held otherwise wanted).2 := by
  cases wanted with
  | nil => exact hotherwise rfl
  | cons id wanted =>
    obtain ⟨e, he⟩ := hthere id List.mem_cons_self
    obtain ⟨hjoins, hstands⟩ := arrive_stands hw he hheld horder hthere
    exact .stays [⟨id, (s.entry id).turns.arrive.2⟩] rfl rfl hjoins hstands

/-- How an operation stands that takes up its turn if that is offered. -/
theorem Stands.takeUp (hw : s.LinesFormed) {held : List Place} {place : Place}
    {wanted : List SegmentId} (h : s.Stands held place wanted) :
    s.Joins (s.modifyTurns place.segment fun l => l.takeUp place.ticket) (place :: held) [] ∧
      Stands (s.modifyTurns place.segment fun l => l.takeUp place.ticket) held place wanted := by
  have hjoins : s.Joins (s.modifyTurns place.segment fun l => l.takeUp place.ticket)
    (place :: held) [] := .takeUp hw List.mem_cons_self
  have hl := lines_modifyTurns_of_empty s place.segment (f := fun l => l.takeUp place.ticket)
    (by simp [TurnLine.takeUp, TurnLine.empty])
  refine ⟨hjoins, fun p hp => ?_, ?_, h.order, fun j hj => ?_⟩
  · have htail := (List.pairwise_append.mp h.order).2.1
    have hyounger : p.segment < place.segment :=
      (List.pairwise_cons.mp htail).1 _ (List.mem_map_of_mem hp)
    rw [hasTurn_eq, hl, if_neg (Nat.ne_of_lt hyounger)]
    exact h.turns p hp
  · rw [hjoins.tickets]
    exact List.mem_append_left _ h.inLine
  · obtain ⟨c, hc⟩ := h.there j hj
    obtain ⟨c', hc', -⟩ := (Alike.modifyTurns s place.segment fun l =>
      l.takeUp place.ticket).entry j c hc
    exact ⟨c', hc'⟩

/-- What is done after a turn was taken up is done by the same operation. -/
theorem Joins.queues (hw : s.LinesFormed) {phase : Phase} (h : s.Joins s' own [])
    (hq : Queues s' own s'' phase) : Queues s own s'' phase := by
  cases hq with
  | stays arrived unfinished places joins placed =>
    have hall := h.trans joins
    rw [List.append_nil] at hall
    exact .stays arrived unfinished places hall placed
  | ends result clears => exact .ends result (h.clears hw clears)

/-- What any step of an operation does to the lines. -/
theorem advancePhase_queues (h : s.Outlines a) (ha : a.WellFormed) (hw : s.LinesFormed)
    {o : Operation} (ho : o.phase.Placed s)
    (hne : ∀ target source, o.request = .merge target source → target ≠ source) :
    Queues s o.phase.places (s.advancePhase o).1 (s.advancePhase o).2.1 := by
  unfold advancePhase
  split
  · next hphase =>
    rw [hphase]
    exact begin_queues h ha hw o.barrier hne
  · next action held place wanted hphase =>
    rw [hphase] at ho ⊢
    obtain ⟨hjoins, hstands⟩ := Stands.takeUp hw ho
    have halike := Alike.modifyTurns s place.segment fun l => l.takeUp place.ticket
    simp only
    split
    · next hturn =>
      exact hjoins.queues hw (takeTurns_queues (h.resembles halike.resembles)
        hjoins.spares.formed action (List.forall_mem_cons.mpr ⟨hturn, hstands.turns⟩)
        hstands.order hstands.there)
    · exact .stays [] rfl rfl hjoins hstands
  · next hphase =>
    rw [hphase]
    exact queues_of_lines hw rfl rfl
  · next id lookup cache values hphase =>
    rw [hphase]
    refine queues_of_lines hw ?_ (lines_finishLookup s id lookup cache values)
    unfold finishLookup
    simp only
    split <;> rfl
  · next hphase =>
    rw [hphase]
    exact queues_of_lines hw rfl rfl

/-- What an operation does to the lines that goes no further than to its next turn. -/
theorem comeToTurn_queues (h : s.Outlines a) (ha : a.WellFormed) (hw : s.LinesFormed)
    {o : Operation} (ho : o.phase.Placed s)
    (hne : ∀ target source, o.request = .merge target source → target ≠ source) :
    Queues s o.phase.places (s.comeToTurn o).1 (s.comeToTurn o).2 := by
  unfold comeToTurn
  split
  · next hphase =>
    rw [hphase]
    split
    · next action _ haction =>
      obtain ⟨horder, hthere⟩ := h.turns_of_action? ha haction hne
      exact comeTo_queues hw (List.forall_mem_nil _) horder hthere fun _ =>
        queues_of_lines hw rfl rfl
    · exact queues_of_lines hw rfl rfl
  · next action held place wanted hphase =>
    rw [hphase] at ho ⊢
    obtain ⟨hjoins, hstands⟩ := Stands.takeUp hw ho
    simp only
    split
    · next hturn =>
      refine hjoins.queues hw (comeTo_queues hjoins.spares.formed
        (List.forall_mem_cons.mpr ⟨hturn, hstands.turns⟩) hstands.order hstands.there fun _ => ?_)
      exact .stays [] rfl rfl (.of_lines hjoins.spares.formed rfl) hstands
    · exact .stays [] rfl rfl hjoins hstands
  · next hother hother' =>
    generalize o.phase = phase at ho hother hother' ⊢
    cases phase with
    | accepted => exact absurd rfl hother
    | inLine action held place wanted => exact absurd rfl (hother' action held place wanted)
    | fetching id lookup cache => exact queues_of_lines hw rfl rfl
    | fetched id lookup cache values => exact queues_of_lines hw rfl rfl
    | finished result => exact queues_of_lines hw rfl rfl

end Engine

end Segments
