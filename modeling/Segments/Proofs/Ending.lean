import Segments.Proofs.Operations
import Segments.Proofs.Outline

/-!
# Operations on a segment that has come to its end

A segment that was merged away or deleted has no content any more that an operation could use. An
operation that comes too late, and one that found the segment before and waits for a turn, ends in
an error as soon as it could begin, and leaves the journal as it was.
-/

namespace Segments

/-- The segments whose content a change needs. -/
def Action.needs : Action → List SegmentId
  | append segment .. | update _ segment _ | sealing _ segment | truncate _ segment _ => [segment]
  | merge target source => [target, source]
  | create .. | delete .. => []

/-- The names of the segments whose content a request needs. -/
def Request.needs : Request → List String
  | append name .. | appendAt name .. | update name _ | lookup name .. | read name .. | sealing name
  | truncate name _ => [name]
  | merge target source => [target, source]
  | create .. | info .. | delete _ => []

/-- An operation that has yet to begin, or waits for a turn, needs the content of a segment. -/
def Operation.Needs (o : Operation) (s : Engine) (id : SegmentId) : Prop :=
  match o.phase with
  | .accepted => ∃ name ∈ o.request.needs, s.names.get? name = some id
  | .inLine action _ _ _ => id ∈ action.needs
  | _ => False

/-- An operation has come to a line, does not have its turn there, and needs the content of a
segment that it has looked up. -/
def Phase.AwaitsTurn (phase : Phase) (s : Engine) (id : SegmentId) : Prop :=
  ∃ action held place wanted, phase = .inLine action held place wanted ∧ id ∈ action.needs ∧
    s.hasTurn place = false

namespace Engine

variable {s s' : Engine} {a : Account} {id : SegmentId} {action : Action} {name : String}

/-- A segment is not, or no longer, at a stage at which its content can be used. -/
structure Unreadable (s : Engine) (id : SegmentId) : Prop where
  /-- It is not active. -/
  active : (s.entry id).state ≠ .active
  /-- It is not sealed. -/
  sealed : (s.entry id).state ≠ .sealed

theorem Unreadable.alike (h : s.Unreadable id) (ha : s.Alike s') : s'.Unreadable id := by
  have hstate : (s'.entry id).state = (s.entry id).state := (ha.entry_alike id).state
  exact ⟨hstate ▸ h.active, hstate ▸ h.sealed⟩

theorem Unreadable.exists_requireReadable (h : s.Unreadable id) (segment : String) :
    ∃ e, (s.entry id).state.requireReadable segment = .error e := by
  cases hr : (s.entry id).state.requireReadable segment with
  | error e => exact ⟨e, rfl⟩
  | ok u =>
    rcases SegmentState.requireReadable_eq_ok.mp hr with hs | hs
    · exact absurd hs h.active
    · exact absurd hs h.sealed

/-- A change that needs a segment that cannot be read is refused. -/
theorem Unreadable.exists_refuse (hend : s.Unreadable id) (hid : id ∈ action.needs) :
    ∃ e, s.propose action = .refuse e := by
  obtain ⟨hactive, hsealed⟩ := hend
  cases hp : s.propose action with
  | refuse e => exact ⟨e, rfl⟩
  | idle answer =>
    cases idles_iff.mpr hp with
    | update active empty =>
      exact absurd (List.mem_singleton.mp hid ▸ active) hactive
    | sealing sealed =>
      exact absurd (List.mem_singleton.mp hid ▸ sealed) hsealed
    | truncate readable within =>
      exact absurd (List.mem_singleton.mp hid ▸ readable) (not_or.mpr ⟨hactive, hsealed⟩)
  | commit record answer =>
    cases proposes_iff.mpr ⟨answer, hp⟩ with
    | create free evaluated => cases hid
    | append active length evaluated =>
      exact absurd (List.mem_singleton.mp hid ▸ active) hactive
    | update active nonempty evaluated =>
      exact absurd (List.mem_singleton.mp hid ▸ active) hactive
    | sealing active =>
      exact absurd (List.mem_singleton.mp hid ▸ active) hactive
    | truncate readable rises within =>
      exact absurd (List.mem_singleton.mp hid ▸ readable) (not_or.mpr ⟨hactive, hsealed⟩)
    | delete named live => cases hid
    | merge active sealed =>
      rcases List.mem_cons.mp hid with rfl | hsource
      · exact absurd active hactive
      · exact absurd (List.mem_singleton.mp hsource ▸ sealed) hsealed

/-- A step that ends in an error and leaves the journal as it was. -/
structure Fails (s : Engine) (step : Engine × Phase × List Event) : Prop where
  /-- It ends in an error. -/
  phase : ∃ e, step.2.1 = .finished (.error e)
  /-- The journal is what it was. -/
  log : step.1.log = s.log

/-- A failed check ends an operation. -/
theorem Fails.ofCheck {α : Type} {check : Except SegmentError α}
    {next : α → Engine × Phase × List Event} (hnext : ∀ v, check = .ok v → s.Fails (next v)) :
    s.Fails (Phase.ofCheck s check next) := by
  cases check with
  | error e => exact ⟨⟨e, rfl⟩, rfl⟩
  | ok v => exact hnext v rfl

/-- A change that is refused fails. -/
theorem Fails.conclude (hrefuse : ∃ e, s.propose action = .refuse e) :
    s.Fails (s.conclude action) := by
  obtain ⟨e, he⟩ := hrefuse
  have hexecute : s.execute action = (s.touchConsulted action, [], .error e) := by
    simp only [execute_eq, he]
  simp only [Engine.conclude, hexecute]
  exact ⟨⟨e, rfl⟩, (Alike.touchConsulted s action).log⟩

/-- A step that ends in an error, or waits for a turn with a change that needs a segment, and leaves
the journal as it was. -/
structure Bars (s : Engine) (id : SegmentId) (step : Engine × Phase × List Event) : Prop where
  /-- It ends in an error or waits. -/
  phase : (∃ e, step.2.1 = .finished (.error e)) ∨ step.2.1.AwaitsTurn step.1 id
  /-- The journal is what it was. -/
  log : step.1.log = s.log

theorem Fails.bars {step : Engine × Phase × List Event} (h : s.Fails step) : s.Bars id step :=
  ⟨Or.inl h.phase, h.log⟩

namespace Bars

theorem of_alike {step : Engine × Phase × List Event} (ha : s.Alike s') (h : s'.Bars id step) :
    s.Bars id step :=
  ⟨h.phase, h.log.trans ha.log⟩

/-- A failed check ends an operation. -/
theorem ofCheck {α : Type} {check : Except SegmentError α}
    {next : α → Engine × Phase × List Event} (hnext : ∀ v, check = .ok v → s.Bars id (next v)) :
    s.Bars id (Phase.ofCheck s check next) := by
  cases check with
  | error e => exact ⟨Or.inl ⟨e, rfl⟩, rfl⟩
  | ok v => exact hnext v rfl

/-- Whoever has all turns, or gets them, is refused. -/
theorem takeTurns (hend : s.Unreadable id) (hid : id ∈ action.needs)
    (held : List Place) (wanted : List SegmentId) : s.Bars id (s.takeTurns action held wanted) := by
  induction wanted generalizing s held with
  | nil =>
    unfold Engine.takeTurns
    have hconcluded : s.Fails (Phase.ofCheck s s.requireOpen fun () => s.conclude action) :=
      .ofCheck fun _ _ => .conclude (hend.exists_refuse hid)
    exact ⟨Or.inl hconcluded.phase, (Alike.leaveAll _ held).log.trans hconcluded.log⟩
  | cons j wanted ih =>
    have halike := Alike.modifyTurns s j fun _ => (s.entry j).turns.arrive.1
    unfold Engine.takeTurns
    simp only
    split
    · exact .of_alike halike (ih (hend.alike halike) _)
    · next hwaits =>
      exact ⟨Or.inr ⟨action, held, _, wanted, rfl, hid, Bool.not_eq_true _ ▸ hwaits⟩, halike.log⟩

end Bars

/-- The segment that a name stands for is found by it. -/
theorem Outlines.entry_of_resolve (h : s.Outlines a) (hn : s.names.get? name = some id) {e : Entry}
    (hr : s.resolve name = .ok e) : s.entry id = e ∧ e.id = id := by
  obtain ⟨j, hj, hl⟩ := resolve_eq_ok hr
  obtain rfl := Option.some.inj (hn.symm.trans hj)
  obtain ⟨-, -, he, hown, -⟩ := h.of_live hl
  exact ⟨entry_eq he, hown⟩

section

variable (h : s.Outlines a) (hend : s.Unreadable id) (hn : s.names.get? name = some id)

include h hend hn

/-- Reads and look-ups of a segment that cannot be read fail. -/
theorem Outlines.begin_fails (barrier : Nat) {request : Request} (hq : request.changes = false)
    (hname : name ∈ request.needs) : s.Fails (s.begin barrier request) := by
  have hunreadable {e : Entry} (he : s.resolve name = .ok e) (segment : String) :
      ∃ err, e.metadata.state.requireReadable segment = .error err := by
    obtain ⟨rfl, -⟩ := h.entry_of_resolve hn he
    exact hend.exists_requireReadable segment
  cases request with
  | lookup _ ids cache =>
    obtain rfl := List.mem_singleton.mp hname
    refine .ofCheck fun _ _ => .ofCheck fun e he => ?_
    obtain ⟨err, herr⟩ := hunreadable he e.name
    simp only [Entry.state, herr]
    exact ⟨⟨err, rfl⟩, rfl⟩
  | read _ offset maxLength =>
    obtain rfl := List.mem_singleton.mp hname
    refine .ofCheck fun _ _ => ?_
    cases hr : s.resolve name with
    | error err =>
      simp only [openReader, hr]
      exact ⟨⟨err, rfl⟩, rfl⟩
    | ok e =>
      obtain ⟨err, herr⟩ := hunreadable hr name
      simp only [openReader, hr, herr]
      exact ⟨⟨err, rfl⟩, rfl⟩
  | info _ _ => cases hname
  | _ => cases hq

/-- Changes that need a segment that cannot be read fail, or wait for a turn. -/
theorem Outlines.begin_bars (barrier : Nat) {request : Request} (hq : request.changes = true)
    (hname : name ∈ request.needs) : s.Bars id (s.begin barrier request) := by
  have atOnce (make : SegmentId → Action) (hid : id ∈ (make id).needs) :
      s.Bars id (s.atOnce name make) :=
    .ofCheck fun _ _ => .ofCheck fun e he =>
      (Fails.conclude (hend.exists_refuse (by rwa [(h.entry_of_resolve hn he).2]))).bars
  have inTurn (make : SegmentId → Action) (hid : id ∈ (make id).needs) :
      s.Bars id (s.inTurn name make) :=
    .ofCheck fun _ _ => .ofCheck fun e he =>
      .takeTurns hend (by rwa [(h.entry_of_resolve hn he).2]) _ _
  cases request with
  | append _ data updates =>
    obtain rfl := List.mem_singleton.mp hname
    exact atOnce (.append · data updates none) List.mem_cons_self
  | appendAt _ offset data updates =>
    obtain rfl := List.mem_singleton.mp hname
    exact inTurn (.append · data updates (some offset)) List.mem_cons_self
  | update _ updates =>
    obtain rfl := List.mem_singleton.mp hname
    exact atOnce (.update name · updates) List.mem_cons_self
  | sealing _ =>
    obtain rfl := List.mem_singleton.mp hname
    exact inTurn (.sealing name ·) List.mem_cons_self
  | truncate _ offset =>
    obtain rfl := List.mem_singleton.mp hname
    exact inTurn (.truncate name · offset) List.mem_cons_self
  | merge target source =>
    -- the name is that of the target or of the source; the other may stand for nothing
    refine .ofCheck fun _ _ => .ofCheck fun t ht => .ofCheck fun u hu => .takeTurns hend ?_ _ _
    rcases List.mem_cons.mp hname with rfl | hsource
    · rw [(h.entry_of_resolve hn ht).2]
      exact List.mem_cons_self
    · obtain rfl := List.mem_singleton.mp hsource
      rw [(h.entry_of_resolve hn hu).2]
      exact List.mem_cons_of_mem _ List.mem_cons_self
  | create _ _ | delete _ => cases hname
  | _ => cases hq

end

/-- The first step of an operation is the beginning of its request. -/
theorem phase_advance_of_accepted {o : Operation} (ho : o.phase = .accepted) :
    (s.advance o).2.1.phase = (s.begin o.barrier o.request).2.1 := by
  simp only [advance, advancePhase, ho]

/-- An operation that needs a segment that cannot be read fails at its next step unless it has to
wait for a turn, and needs it still then. The journal stays as it is. -/
theorem Outlines.advance_of_needs (h : s.Outlines a) (hend : s.Unreadable id) {o : Operation}
    (ho : o.Needs s id) : ((∃ e, (s.advance o).2.1.phase = .finished (.error e)) ∨
      (s.advance o).2.1.phase.AwaitsTurn (s.advance o).1 id) ∧ (s.advance o).1.log = s.log := by
  have hbars : s.Bars id (s.advancePhase o) := by
    unfold Operation.Needs at ho
    unfold advancePhase
    split at ho
    · next hphase =>
      obtain ⟨name, hname, hn⟩ := ho
      rw [hphase]
      cases hq : o.request.changes with
      | true => exact h.begin_bars hend hn o.barrier hq hname
      | false => exact (h.begin_fails hend hn o.barrier hq hname).bars
    · next action held place wanted hphase =>
      have halike := Alike.modifyTurns s place.segment fun l => l.takeUp place.ticket
      simp only [hphase]
      split
      · exact .of_alike halike (.takeTurns (hend.alike halike) ho _ _)
      · next hwaits =>
        exact ⟨Or.inr ⟨action, held, place, wanted, rfl, ho, Bool.not_eq_true _ ▸ hwaits⟩,
          halike.log⟩
    · cases ho
  refine ⟨?_, (Alike.settle _ _).log.trans hbars.log⟩
  rcases hbars.phase with hfailed | ⟨action, held, place, wanted, hphase, hid, hwaits⟩
  · exact Or.inl hfailed
  · have hsame : (s.advance o).1 = (s.advancePhase o).1 :=
      settle_of_unfinished (o := { o with phase := (s.advancePhase o).2.1 })
        (congrArg Phase.isFinished hphase)
    exact Or.inr ⟨action, held, place, wanted, hphase, hid, hsame ▸ hwaits⟩

end Engine

end Segments
