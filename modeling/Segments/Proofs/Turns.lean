import Segments.Proofs.Operations

/-!
# The turns of a caller who is alone

When nothing else runs on a store, nobody stands in line and no turn is taken. A change then gets
every turn at once, gives them back at its end, and never has to wait.
-/

namespace Segments

namespace TurnLine

/-- Nobody stands in line, and only certain callers may have the turn. -/
def TakenBy (l : TurnLine) (ours : Nat → Prop) : Prop :=
  l.line = [] ∧ (l.turn = .free ∨ ∃ ticket, ours ticket ∧ l.turn = .held ticket)

variable {l : TurnLine} {P Q : Nat → Prop}

/-- Nobody has the turn of an empty line. -/
theorem takenBy_empty : empty.TakenBy P := ⟨rfl, Or.inl rfl⟩

/-- Who may have the turn may be one of more callers. -/
theorem TakenBy.mono (h : l.TakenBy P) (hPQ : ∀ ticket, P ticket → Q ticket) : l.TakenBy Q :=
  ⟨h.1, h.2.imp_right fun ⟨ticket, ht, hturn⟩ => ⟨ticket, hPQ ticket ht, hturn⟩⟩

/-- A turn that nobody has goes to whoever arrives. -/
theorem TakenBy.arrive (h : l.TakenBy P) (hP : ∀ ticket, ¬P ticket) :
    l.arrive.1.holds l.arrive.2 = true ∧ l.arrive.1.TakenBy (· = l.arrive.2) := by
  have hfree : l.turn = .free := h.2.resolve_right fun ⟨ticket, ht, _⟩ => hP ticket ht
  have harrive : l.arrive = (⟨l.issued + 1, .held (l.issued + 1), l.line⟩, l.issued + 1) := by
    simp only [TurnLine.arrive, hfree]
  rw [harrive]
  exact ⟨by simp [holds], h.1, Or.inr ⟨_, rfl, rfl⟩⟩

/-- Whoever leaves has the turn no more, and nobody else gets it. -/
theorem TakenBy.leave (h : l.TakenBy P) {ticket : Nat}
    (hP : ∀ other, P other → other ≠ ticket → Q other) : (l.leave ticket).TakenBy Q := by
  unfold TurnLine.leave
  split
  · rw [pass, h.1]
    exact ⟨rfl, Or.inl rfl⟩
  · next hother =>
    rw [not_or] at hother
    refine ⟨by simp [h.1], h.2.imp_right fun ⟨other, ho, hturn⟩ => ⟨other, hP other ho ?_, hturn⟩⟩
    rintro rfl
    exact hother.1 hturn

end TurnLine

namespace Engine

/-- Nobody stands in line anywhere, and no turn is taken but at certain places. -/
def Turns (s : Engine) (held : List Place) : Prop :=
  ∀ id e, s.entries.get? id = some e → e.turns.TakenBy fun ticket => ⟨id, ticket⟩ ∈ held

/-- A step after which an operation has ended and nobody has a turn. -/
def Ended (step : Engine × Phase × List Event) : Prop :=
  (∃ result, step.2.1 = .finished result) ∧ step.1.Turns []

variable {s : Engine} {held : List Place} {a : Account}

/-- Turns stay when an entry changes in anything else. -/
theorem Turns.modifyEntry (h : s.Turns held) (id : SegmentId) {f : Entry → Entry}
    (hf : ∀ e, (f e).turns = e.turns) : (s.modifyEntry id f).Turns held := by
  intro j e' he'
  rw [Engine.modifyEntry, Table.get?_modify] at he'
  split at he'
  · obtain ⟨e, he, rfl⟩ := Option.map_eq_some_iff.mp he'
    rw [hf]
    exact h j e he
  · exact h j e' he'

/-- The turns of one segment change, and with them the places at which turns are taken. -/
theorem Turns.modifyTurns (h : s.Turns held) {held' : List Place} (id : SegmentId)
    {f : TurnLine → TurnLine}
    (hself : ∀ l : TurnLine, (l.TakenBy fun ticket => ⟨id, ticket⟩ ∈ held) →
      (f l).TakenBy fun ticket => ⟨id, ticket⟩ ∈ held')
    (hother : ∀ p ∈ held, p.segment ≠ id → p ∈ held') : (s.modifyTurns id f).Turns held' := by
  intro j e' he'
  rw [Engine.modifyTurns, Engine.modifyEntry, Table.get?_modify] at he'
  split at he'
  · next hj =>
    subst hj
    obtain ⟨e, he, rfl⟩ := Option.map_eq_some_iff.mp he'
    exact hself e.turns (h j e he)
  · next hj => exact (h j e' he').mono fun ticket hp => hother _ hp hj

/-- Touching attributes takes no turn. -/
theorem Turns.touchConsulted (h : s.Turns held) (action : Action) :
    (s.touchConsulted action).Turns held := by
  unfold Engine.touchConsulted Engine.touchConsultedBy
  split
  · split
    · exact h.modifyEntry _ fun _ => rfl
    · exact h
  · split
    · exact h.modifyEntry _ fun _ => rfl
    · exact h
  · exact h

/-- Applying attributes takes no turn. -/
theorem Turns.applyAttributes (h : s.Turns held) (id : SegmentId) (values : AttributeValues) :
    (s.applyAttributes id values).1.Turns held :=
  h.modifyEntry id fun _ => rfl

/-- Dropping stored values takes no turn. -/
theorem Turns.dropStored (h : s.Turns held) (id : SegmentId) (name : String) :
    (s.dropStored id name).1.Turns held := by
  rw [dropStored_fst]
  exact h

/-- A record that is applied leaves the turns alone; a new segment has nobody in line. -/
theorem Turns.enact (h : s.Turns held) (callerName : String) (record : Record) :
    (s.enact callerName record).1.Turns held := by
  cases record with
  | create id name values =>
    intro j e' he'
    simp only [Engine.enact, Table.get?_insert] at he'
    split at he'
    · rw [← Option.some.inj he']
      exact TurnLine.takenBy_empty
    · exact h j e' he'
  | append id offset data values =>
    have hgrown := (h.modifyEntry id (f := fun e => { e with
      data := e.data ++ data
      metadata := { e.metadata with length := e.metadata.length + data.length } }) fun _ => rfl)
    exact (hgrown.applyAttributes id values).modifyEntry id fun _ => rfl
  | updateAttributes id values => exact h.applyAttributes id values
  | sealing id length => exact h.modifyEntry id fun _ => rfl
  | truncate id offset => exact h.modifyEntry id fun _ => rfl
  | delete id =>
    have hended := h.modifyEntry id (f := fun e => (ended e .deleted e.metadata.mergedInto).publish)
      fun _ => rfl
    exact Turns.dropStored (s := { s.modifyEntry id _ with names := s.names.erase callerName })
      hended id callerName
  | merge target source sourceLength offset =>
    refine Turns.dropStored (Turns.modifyEntry (Turns.modifyEntry h target ?_) source ?_) _ _
    · exact fun _ => rfl
    · exact fun _ => rfl

/-- A change leaves the turns alone. -/
theorem Turns.execute (h : s.Turns held) (action : Action) : (s.execute action).1.Turns held := by
  have htouched := h.touchConsulted action
  have hexecutes := s.executes action
  generalize (s.execute action).1 = s', (s.execute action).2.2 = result at hexecutes ⊢
  cases hexecutes with
  | refused proposed => exact htouched
  | idles proposed => exact htouched
  | fails proposed appended => exact htouched
  | @commits record answer log n proposed appended =>
    exact Turns.enact (s := { s.touchConsulted action with log }) htouched _ record

/-- Settling an operation takes no turn. -/
theorem Turns.settle (h : s.Turns held) (o : Operation) : (s.settle o).Turns held := by
  unfold Engine.settle
  split <;> exact h

/-- Turns are given back. -/
theorem Turns.leaveAll (h : s.Turns held) : (s.leaveAll held).Turns [] := by
  unfold Engine.leaveAll
  induction held generalizing s with
  | nil => exact h
  | cons p held ih =>
    refine ih (h.modifyTurns p.segment (fun l hl => hl.leave fun other ho hne => ?_)
      fun q hq hne => ?_)
    · rcases List.mem_cons.mp ho with heq | hin
      · exact absurd (congrArg Place.ticket heq) hne
      · exact hin
    · rcases List.mem_cons.mp hq with rfl | hin
      · exact absurd rfl hne
      · exact hin

/-- A change gets the turns of segments that are there and that it does not have, and ends. -/
theorem Turns.takeTurns (h : s.Turns held) (action : Action) {wanted : List SegmentId}
    (hthere : ∀ id ∈ wanted, ∃ e, s.entries.get? id = some e) (hnodup : wanted.Nodup)
    (hfree : ∀ p ∈ held, p.segment ∉ wanted) : Ended (s.takeTurns action held wanted) := by
  induction wanted generalizing s held with
  | nil =>
    unfold Engine.takeTurns
    cases s.requireOpen with
    | error e => exact ⟨⟨_, rfl⟩, h.leaveAll⟩
    | ok u => exact ⟨⟨_, rfl⟩, (h.execute action).leaveAll⟩
  | cons id wanted ih =>
    obtain ⟨e, he⟩ := hthere id List.mem_cons_self
    obtain ⟨hid, hrest⟩ := List.nodup_cons.mp hnodup
    obtain ⟨hholds, htaken⟩ := (h id e he).arrive fun ticket hp =>
      hfree _ hp List.mem_cons_self
    let s₁ := s.modifyTurns id fun _ => (s.entry id).turns.arrive.1
    let place : Place := ⟨id, (s.entry id).turns.arrive.2⟩
    rw [← entry_eq he] at hholds htaken
    have hentry : s₁.entries.get? id =
        some { e with turns := (s.entry id).turns.arrive.1 } := by
      simp only [s₁, Engine.modifyTurns, Engine.modifyEntry, Table.get?_modify, ↓reduceIte, he,
        Option.map_some]
    have hturn : s₁.hasTurn place = true := by
      rw [hasTurn, entry_eq hentry]
      exact hholds
    have hturns : s₁.Turns (place :: held) := h.modifyTurns id
      (fun _ _ => htaken.mono fun ticket ht => by rw [ht]; exact List.mem_cons_self)
      fun _ hp _ => List.mem_cons_of_mem _ hp
    have hstep : s.takeTurns action held (id :: wanted) =
        s₁.takeTurns action (place :: held) wanted := by
      rw [Engine.takeTurns]
      exact if_pos hturn
    rw [hstep]
    refine ih hturns (fun j hj => ?_) hrest fun p hp hin => ?_
    · obtain ⟨e', he'⟩ := hthere j (List.mem_cons_of_mem _ hj)
      obtain ⟨e'', he'', -⟩ := (Alike.modifyTurns s id _).entry j e' he'
      exact ⟨e'', he''⟩
    · rcases List.mem_cons.mp hp with rfl | hold
      · exact hid hin
      · exact hfree p hold (List.mem_cons_of_mem _ hin)

/-- A change that has its turns ends and gives them back. -/
theorem Turns.conclude (h : s.Turns []) (action : Action) : Ended (s.conclude action) :=
  ⟨⟨_, rfl⟩, h.execute action⟩

/-- A failed check ends an operation. -/
theorem Turns.ofCheck (h : s.Turns []) {α : Type} {check : Except SegmentError α}
    {next : α → Engine × Phase × List Event} (hnext : ∀ v, check = .ok v → Ended (next v)) :
    Ended (Phase.ofCheck s check next) := by
  cases check with
  | error e => exact ⟨⟨_, rfl⟩, h⟩
  | ok v => exact hnext v rfl

/-- A change made at once ends without a turn. -/
theorem Turns.atOnce (h : s.Turns []) (name : String) (action : SegmentId → Action) :
    Ended (s.atOnce name action) :=
  h.ofCheck fun _ _ => h.ofCheck fun e _ => h.conclude (action e.id)

/-- A change made in turn ends and gives the turn back. -/
theorem Turns.inTurn (h : s.Turns []) (ha : s.Agrees a) (name : String)
    (action : SegmentId → Action) : Ended (s.inTurn name action) := by
  refine h.ofCheck fun _ _ => h.ofCheck fun e he => ?_
  obtain ⟨g, -, -, hentry, -⟩ := ha.of_resolve he
  refine h.takeTurns _ (fun id hid => ?_) (List.pairwise_singleton _ _) fun p hp => ?_
  · rw [List.mem_singleton.mp hid]
    exact ⟨e, hentry⟩
  · cases hp

/-- Two names stand for two segments, so a merge gets both turns. -/
theorem Turns.mergeInTurn (h : s.Turns []) (ha : s.Agrees a) (hw : a.WellFormed)
    {target source : String} (hne : target ≠ source) : Ended (s.mergeInTurn target source) := by
  refine h.ofCheck fun _ _ => h.ofCheck fun t ht => h.ofCheck fun u hu => ?_
  obtain ⟨-, htname, -, htentry, -⟩ := ha.of_resolve ht
  obtain ⟨-, huname, -, huentry, -⟩ := ha.of_resolve hu
  have hids : t.id ≠ u.id := by
    intro heq
    obtain ⟨g, hg, hname⟩ := hw.name _ _ htname
    obtain ⟨g', hg', hname'⟩ := hw.name _ _ huname
    have hsame : g = g' := by
      rw [Entry.id, Entry.id] at heq
      rw [heq, hg'] at hg
      exact (Option.some.inj hg).symm
    exact hne (by rw [← hname, ← hname', hsame])
  refine h.takeTurns _ (fun id hid => ?_) ?_ fun p hp => ?_
  · have hcases : id = t.id ∨ id = u.id := by
      split at hid <;> simp only [List.mem_cons, List.not_mem_nil, or_false] at hid
      · exact hid
      · exact hid.symm
    rcases hcases with rfl | rfl
    · exact ⟨t, htentry⟩
    · exact ⟨u, huentry⟩
  · split
    · simpa using hids
    · simpa using hids.symm
  · cases hp

/-- When nobody has a turn, a request for a change never waits. -/
theorem Turns.begin (h : s.Turns []) (ha : s.Agrees a) (hw : a.WellFormed) (barrier : Nat)
    {request : Request} (hq : request.changes = true)
    (hnames : ∀ target source, request = .merge target source → target ≠ source) :
    Ended (s.begin barrier request) := by
  cases request with
  | create name updates => exact h.ofCheck fun _ _ => h.conclude _
  | append name data updates => exact h.atOnce name fun id => .append id data updates none
  | appendAt name offset data updates =>
    exact h.inTurn ha name fun id => .append id data updates (some offset)
  | update name updates => exact h.atOnce name fun id => .update name id updates
  | merge target source => exact h.mergeInTurn ha hw (hnames target source rfl)
  | sealing name => exact h.inTurn ha name fun id => .sealing name id
  | delete name => exact h.inTurn ha name fun id => .delete name id
  | truncate name offset => exact h.inTurn ha name fun id => .truncate name id offset
  | lookup name ids cache => cases hq
  | read name offset maxLength => cases hq
  | info name wait => cases hq

end Engine

end Segments
