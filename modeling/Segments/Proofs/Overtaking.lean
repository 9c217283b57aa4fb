import Segments.Proofs.Operations

/-!
# Operations that are overtaken

Where operations run on several threads, one that has come to a turn may be overtaken by others
before it goes on with it, so that they find the turn taken. `comeToTurn` takes an operation no
further than to the next turn that it has to take; its segments are looked up by then, and nothing
is decided yet. From there it goes on as it would have done, `advancePhase_comeTo`.
-/

namespace Segments

/-- A value of a key that is not changed leaves the table as it is. -/
theorem Table.modify_eq_self {κ α : Type} [DecidableEq κ] (t : Table κ α) (k : κ) {f : α → α}
    (hf : ∀ a, t.get? k = some a → f a = a) : t.modify k f = t := by
  have hentries : (t.entries.map fun e => if e.1 = k then (e.1, f e.2) else e) = t.entries := by
    refine (List.map_congr_left fun e he => ?_).trans t.entries.map_id
    split
    · next hk =>
      rw [hf e.2 (t.get?_eq_some_iff_mem.mpr (hk ▸ he))]
      rfl
    · rfl
  unfold modify
  simp only [hentries]

/-- The segments whose turns a change takes, the oldest first. -/
def Action.turns : Action → List SegmentId
  | append segment _ _ (some _) | sealing _ segment | truncate _ segment _ | delete _ segment =>
    [segment]
  | merge target source => if target < source then [target, source] else [source, target]
  | create .. | update .. | append _ _ _ none => []

namespace Engine

/-- Comes to the line of the first segment that is still wanted, if there is one. -/
def comeTo (s : Engine) (action : Action) (held : List Place) (otherwise : Phase) :
    List SegmentId → Engine × Phase
  | [] => (s, otherwise)
  | id :: wanted =>
    let (turns, ticket) := (s.entry id).turns.arrive
    (s.modifyTurns id fun _ => turns, .inLine action held ⟨id, ticket⟩ wanted)

/-- Takes an operation to the next turn that it has to take, and no further. -/
def comeToTurn (s : Engine) (o : Operation) : Engine × Phase :=
  match o.phase with
  | .accepted =>
    match s.requireOpen, o.request.action? s with
    | .ok (), some action => s.comeTo action [] .accepted action.turns
    | _, _ => (s, .accepted)
  | .inLine action held place wanted =>
    let s := s.modifyTurns place.segment fun l => l.takeUp place.ticket
    if s.hasTurn place then
      s.comeTo action (place :: held) (.inLine action held place wanted) wanted
    else (s, .inLine action held place wanted)
  | phase => (s, phase)

/-- An operation that is taken to its next turn stays where it was, or comes to a line, at its
beginning or from another line. -/
theorem comeToTurn_cases (s : Engine) (o : Operation) : (s.comeToTurn o).2 = o.phase ∨
    ∃ action held place wanted, (s.comeToTurn o).2 = .inLine action held place wanted ∧
      (o.phase = .accepted ∧ action.turns = place.segment :: wanted ∨
        ∃ held' place', o.phase = .inLine action held' place' (place.segment :: wanted)) := by
  unfold comeToTurn
  split
  · next hphase =>
    split
    · next action _ _ =>
      cases hturns : action.turns with
      | nil => exact Or.inl hphase.symm
      | cons id wanted => exact Or.inr ⟨action, [], _, wanted, rfl, Or.inl ⟨hphase, hturns⟩⟩
    · exact Or.inl hphase.symm
  · next action held place wanted hphase =>
    simp only
    split
    · cases wanted with
      | nil => exact Or.inl hphase.symm
      | cons id wanted =>
        exact Or.inr ⟨action, place :: held, _, wanted, rfl, Or.inr ⟨held, place, hphase⟩⟩
    · exact Or.inl hphase.symm
  · exact Or.inl rfl

/-! ## How a change begins -/

variable {s : Engine} {request : Request} {action : Action} {barrier : Nat}

/-- An open store passes the check that it is open. -/
theorem requireOpen_of_open (h : s.closed = false) : s.requireOpen = .ok () := by
  simp only [requireOpen_eq, h, Bool.false_eq_true, ↓reduceIte]

/-- A change without turns is made at once. -/
theorem takeTurns_nil (h : s.closed = false) (action : Action) :
    s.takeTurns action [] [] = s.conclude action := by
  unfold takeTurns
  rw [requireOpen_of_open h]
  rfl

/-- A change that begins on a closed store fails. -/
theorem begin_of_closed (h : s.closed = true) (hq : request.changes = true) :
    s.begin barrier request = (s, .finished (.error .storeClosed), []) := by
  have hclosed : s.requireOpen = .error .storeClosed := by
    simp only [requireOpen_eq, h, ↓reduceIte]
  cases request <;> first
    | (simp only [begin, inTurn, atOnce, mergeInTurn, hclosed]; rfl)
    | cases hq

/-- A change begins by taking its turns. -/
theorem begin_of_action (h : s.closed = false) (ha : request.action? s = some action) :
    s.begin barrier request = s.takeTurns action [] action.turns := by
  have hopen := requireOpen_of_open h
  have inTurn_eq : ∀ (name : String) (make : SegmentId → Action) (e : Entry),
      s.resolve? name = some e → s.inTurn name make = s.takeTurns (make e.id) [] [e.id] := by
    intro name make e he
    simp only [inTurn, hopen, resolve_of_resolve? he]
    rfl
  have atOnce_eq : ∀ (name : String) (make : SegmentId → Action) (e : Entry),
      s.resolve? name = some e → s.atOnce name make = s.takeTurns (make e.id) [] [] := by
    intro name make e he
    simp only [atOnce, hopen, resolve_of_resolve? he, takeTurns_nil h]
    rfl
  cases request with
  | create name updates =>
    obtain rfl := Option.some.inj ha
    simp only [begin, hopen, Action.turns, takeTurns_nil h]
    rfl
  | append name data updates =>
    obtain ⟨e, he, rfl⟩ := Option.map_eq_some_iff.mp ha
    exact atOnce_eq name (fun id => .append id data updates none) e he
  | appendAt name offset data updates =>
    obtain ⟨e, he, rfl⟩ := Option.map_eq_some_iff.mp ha
    exact inTurn_eq name (fun id => .append id data updates (some offset)) e he
  | update name updates =>
    obtain ⟨e, he, rfl⟩ := Option.map_eq_some_iff.mp ha
    exact atOnce_eq name (fun id => .update name id updates) e he
  | sealing name =>
    obtain ⟨e, he, rfl⟩ := Option.map_eq_some_iff.mp ha
    exact inTurn_eq name (fun id => .sealing name id) e he
  | delete name =>
    obtain ⟨e, he, rfl⟩ := Option.map_eq_some_iff.mp ha
    exact inTurn_eq name (fun id => .delete name id) e he
  | truncate name offset =>
    obtain ⟨e, he, rfl⟩ := Option.map_eq_some_iff.mp ha
    exact inTurn_eq name (fun id => .truncate name id offset) e he
  | merge target source =>
    rw [Request.action?] at ha
    split at ha
    · next t u ht hu =>
      obtain rfl := Option.some.inj ha
      simp only [begin, mergeInTurn, hopen, resolve_of_resolve? ht, resolve_of_resolve? hu]
      rfl
    · cases ha
  | lookup name ids cache => cases ha
  | read name offset maxLength => cases ha
  | info name wait => cases ha

/-- A change whose segments are not there fails when it begins. -/
theorem begin_of_none (barrier : Nat) (h : s.closed = false) (hq : request.changes = true)
    (ha : request.action? s = none) :
    ∃ e, s.begin barrier request = (s, .finished (.error e), []) := by
  have hopen := requireOpen_of_open h
  have hresolve : ∀ name, s.resolve? name = none →
      s.resolve name = .error (.segmentNotFound name) := by
    intro name hn
    rw [resolve, hn]
  cases request with
  | create name updates => cases ha
  | merge target source =>
    rw [Request.action?] at ha
    cases ht : s.resolve? target with
    | none =>
      exact ⟨_, by simp only [begin, mergeInTurn, hopen, hresolve _ ht]; rfl⟩
    | some t =>
      cases hu : s.resolve? source with
      | none =>
        exact ⟨_, by
          simp only [begin, mergeInTurn, hopen, resolve_of_resolve? ht, hresolve _ hu]; rfl⟩
      | some u => simp [ht, hu] at ha
  | lookup name ids cache => cases hq
  | read name offset maxLength => cases hq
  | info name wait => cases hq
  | append name | appendAt name | update name | sealing name | delete name | truncate name =>
    have hn := hresolve name (Option.map_eq_none_iff.mp ha)
    exact ⟨_, by simp only [begin, inTurn, atOnce, hopen, hn]; rfl⟩

/-- A change fails when it begins, or begins by taking its turns. -/
theorem begin_of_changes (s : Engine) (barrier : Nat) (hq : request.changes = true) :
    (∃ e, s.begin barrier request = (s, .finished (.error e), [])) ∨
      ∃ action, request.action? s = some action ∧
        s.begin barrier request = s.takeTurns action [] action.turns := by
  cases hc : s.closed with
  | true => exact Or.inl ⟨_, begin_of_closed hc hq⟩
  | false =>
    cases ha : request.action? s with
    | none => exact Or.inl (begin_of_none barrier hc hq ha)
    | some action => exact Or.inr ⟨action, rfl, begin_of_action hc ha⟩

/-! ## A step in two -/

/-- Who has a turn, or is not offered it, does not take it up. -/
theorem modifyTurns_takeUp (s : Engine) (p : Place)
    (h : (s.entry p.segment).turns.turn ≠ .offered p.ticket) :
    (s.modifyTurns p.segment fun l => l.takeUp p.ticket) = s := by
  have hentries : s.entries.modify p.segment
      (fun e => { e with turns := e.turns.takeUp p.ticket }) = s.entries := by
    refine s.entries.modify_eq_self p.segment fun e he => ?_
    rw [entry_eq he] at h
    rw [TurnLine.takeUp, if_neg h]
  unfold modifyTurns modifyEntry
  rw [hentries]

/-- Who has come to a line has its turn already, or is not offered it yet. -/
theorem turn_arrive_ne (l : TurnLine) (h : l.turn ≠ .offered (l.issued + 1)) :
    l.arrive.1.turn ≠ .offered l.arrive.2 := by
  unfold TurnLine.arrive
  cases hturn : l.turn with
  | free => simp
  | offered t =>
    rw [hturn] at h
    exact h
  | held t => simp

/-- No line offers its turn to somebody who has yet to come. -/
def Foreseen (s : Engine) : Prop :=
  ∀ id, (s.entry id).turns.turn ≠ .offered ((s.entry id).turns.issued + 1)

/-- Who has come to the line of the first segment that is wanted goes on as it would have. -/
theorem advancePhase_comeTo (hs : s.Foreseen) {held : List Place} {otherwise : Phase}
    {id : SegmentId} {wanted : List SegmentId} (hthere : ∃ e, s.entries.get? id = some e)
    (o : Operation) :
    (s.comeTo action held otherwise (id :: wanted)).1.advancePhase
        { o with phase := (s.comeTo action held otherwise (id :: wanted)).2 } =
      s.takeTurns action held (id :: wanted) := by
  obtain ⟨e, he⟩ := hthere
  have hentry : (s.modifyTurns id fun _ => (s.entry id).turns.arrive.1).entry id =
      { s.entry id with turns := (s.entry id).turns.arrive.1 } := by
    unfold entry modifyTurns modifyEntry
    rw [Table.get?_modify, if_pos rfl, he]
    rfl
  have hsame := modifyTurns_takeUp (s.modifyTurns id fun _ => (s.entry id).turns.arrive.1)
    ⟨id, (s.entry id).turns.arrive.2⟩ (by
      simp only [hentry]
      exact turn_arrive_ne _ (hs id))
  simp only [comeTo, advancePhase, hsame]
  rw [takeTurns]

/-! ## What coming to a turn leaves as it is -/

variable {o : Operation} {a : Account}

/-- Coming to a line concerns nothing but that line. -/
theorem Alike.comeTo (s : Engine) (action : Action) (held : List Place) (otherwise : Phase)
    (wanted : List SegmentId) : s.Alike (s.comeTo action held otherwise wanted).1 := by
  cases wanted with
  | nil => exact .refl s
  | cons id wanted => exact .modifyTurns s id fun _ => (s.entry id).turns.arrive.1

/-- Coming to a turn concerns nothing but lines. -/
theorem Alike.comeToTurn (s : Engine) (o : Operation) : s.Alike (s.comeToTurn o).1 := by
  unfold Engine.comeToTurn
  split
  · split
    · exact .comeTo s _ _ _ _
    · exact .refl s
  · next place _ _ =>
    have htaken := Alike.modifyTurns s place.segment fun l => l.takeUp place.ticket
    simp only
    split
    · exact htaken.trans (.comeTo _ _ _ _ _)
    · exact htaken
  · exact .refl s

/-- What an operation carries along still holds when it has come to a turn. -/
theorem valid_comeToTurn (ho : o.Valid s a) :
    ({ o with phase := (s.comeToTurn o).2 } : Operation).Valid (s.comeToTurn o).1 a := by
  have comes : ∀ (s₁ : Engine) (action : Action) (held : List Place) (otherwise : Phase)
      (wanted : List SegmentId), o.request.Means action →
      ({ o with phase := otherwise } : Operation).Valid s₁ a →
      ({ o with phase := (s₁.comeTo action held otherwise wanted).2 } : Operation).Valid
        (s₁.comeTo action held otherwise wanted).1 a := by
    intro s₁ action held otherwise wanted hmeans hotherwise
    cases wanted with
    | nil => exact hotherwise
    | cons id wanted => exact hmeans
  unfold Engine.comeToTurn
  split
  · split
    · next action _ ha => exact comes s action [] _ _ (Request.means_of_action? ha) trivial
    · exact trivial
  · next action held place wanted hphase =>
    rw [Operation.Valid, hphase] at ho
    simp only
    split
    · exact comes _ action _ _ wanted ho ho
    · exact ho
  · exact ho

end Engine

end Segments
