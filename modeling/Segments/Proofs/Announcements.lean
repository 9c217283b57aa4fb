import Segments.Proofs.Isolation
import Segments.Proofs.Registrations

/-!
# What readers are told

Readers know of a segment only the tail that its entry published last, and they know how many tails
there have been. While an entry stays in the store each of its tails counts, so that a reader that
has seen as many of them as there are has seen the latest.
-/

namespace Segments

/-- An entry goes on, and each tail that it published in the meantime counts. -/
structure Entry.Announces (e e' : Entry) : Prop where
  /-- No tail is forgotten. -/
  publications : e.publications ≤ e'.publications
  /-- If there was no new one, the latest is the same. -/
  published : e'.publications = e.publications → e'.published = e.published

namespace Entry.Announces

variable {e e' e'' : Entry}

theorem refl (e : Entry) : e.Announces e := ⟨Nat.le_refl _, fun _ => rfl⟩

theorem trans (h : e.Announces e') (h' : e'.Announces e'') : e.Announces e'' := by
  refine ⟨Nat.le_trans h.publications h'.publications, fun heq => ?_⟩
  have hfirst := h.publications
  have hsecond := h'.publications
  have hmiddle : e'.publications = e.publications := by omega
  rw [h'.published (heq.trans hmiddle.symm), h.published hmiddle]

/-- A new tail counts. -/
theorem publish (h : e'.publications = e.publications) : e.Announces e'.publish := by
  constructor
  · exact h ▸ Nat.le_succ e'.publications
  · intro heq
    have hmore : e'.publications + 1 = e.publications := heq
    omega

end Entry.Announces

namespace Engine

/-- The entries of a store go on, and each tail that they published in the meantime counts. -/
def Announces (s s' : Engine) : Prop :=
  ∀ id e, s.entries.get? id = some e → ∃ e', s'.entries.get? id = some e' ∧ e.Announces e'

variable {s s' s'' : Engine} {a : Account} {id : SegmentId} {action : Action} {o : Operation}

namespace Announces

/-- Where no entry changed nothing was published. -/
theorem of_entries (h : s'.entries = s.entries) : s.Announces s' := fun id e he =>
  ⟨e, by rw [h, he], .refl e⟩

theorem refl (s : Engine) : s.Announces s := of_entries rfl

theorem trans (h : s.Announces s') (h' : s'.Announces s'') : s.Announces s'' := by
  intro id e he
  obtain ⟨e', he', hfirst⟩ := h id e he
  obtain ⟨e'', he'', hsecond⟩ := h' id e' he'
  exact ⟨e'', he'', hfirst.trans hsecond⟩

/-- To change one entry is an announcement if it is one of the entry. -/
theorem modifyEntry (s : Engine) (id : SegmentId) {f : Entry → Entry}
    (hf : ∀ e : Entry, e.Announces (f e)) : s.Announces (s.modifyEntry id f) := by
  intro j e he
  rw [Engine.modifyEntry, Table.get?_modify, he]
  split
  · exact ⟨f e, rfl, hf e⟩
  · exact ⟨e, rfl, .refl e⟩

/-- What is changed is nothing that was published. -/
theorem silent (s : Engine) (id : SegmentId) {f : Entry → Entry}
    (hpublished : ∀ e, (f e).published = e.published)
    (hpublications : ∀ e, (f e).publications = e.publications) :
    s.Announces (s.modifyEntry id f) :=
  modifyEntry s id fun e => ⟨Nat.le_of_eq (hpublications e).symm, fun _ => hpublished e⟩

/-- A change of a line publishes nothing. -/
theorem modifyTurns (s : Engine) (id : SegmentId) (f : TurnLine → TurnLine) :
    s.Announces (s.modifyTurns id f) := silent s id (fun _ => rfl) fun _ => rfl

/-- Touching attributes publishes nothing. -/
theorem touch (s : Engine) (id : SegmentId) (ids : List AttributeId) :
    s.Announces (s.touch id ids) := silent s id (fun _ => rfl) fun _ => rfl

/-- Nor does touching what a change consults. -/
theorem touchConsulted (s : Engine) (action : Action) : s.Announces (s.touchConsulted action) := by
  unfold Engine.touchConsulted touchConsultedBy
  split
  · split
    · exact touch s _ _
    · exact refl s
  · split
    · exact touch s _ _
    · exact refl s
  · exact refl s

/-- Applying attribute values publishes nothing. -/
theorem applyAttributes (s : Engine) (id : SegmentId) (values : AttributeValues) :
    s.Announces (s.applyAttributes id values).1 :=
  silent s id (fun _ => rfl) fun _ => rfl

/-- A record that is applied publishes what it changes; a new segment has a new number. -/
theorem enact (s : Engine) (callerName : String) {record : Record}
    (hnew : ∀ id name values, record = .create id name values → s.entries.get? id = none) :
    s.Announces (s.enact callerName record).1 := by
  cases record with
  | create id name values =>
    intro j e he
    have hj : j ≠ id := by
      rintro rfl
      rw [hnew j name values rfl] at he
      cases he
    exact ⟨e, by simp only [Engine.enact, Table.get?_insert, if_neg hj, he], .refl e⟩
  | append id offset data values =>
    have hgrown := silent s id (f := fun e => { e with
      data := e.data ++ data
      metadata := { e.metadata with length := e.metadata.length + data.length } })
      (fun _ => rfl) fun _ => rfl
    exact (hgrown.trans (applyAttributes _ id values)).trans
      (modifyEntry _ id fun _ => .publish rfl)
  | updateAttributes id values => exact applyAttributes s id values
  | sealing id length => exact modifyEntry s id fun _ => .publish rfl
  | truncate id offset => exact modifyEntry s id fun _ => .publish rfl
  | delete id =>
    simp only [Engine.enact, dropStored_fst]
    exact modifyEntry s id fun _ => .publish rfl
  | merge target source sourceLength offset =>
    simp only [Engine.enact, dropStored_fst]
    refine (modifyEntry s target ?_).trans (modifyEntry _ source ?_)
    · exact fun _ => .publish rfl
    · exact fun _ => .publish rfl

/-- A change publishes what it did to its segments. -/
theorem execute (h : s.Outlines a) (action : Action) : s.Announces (s.execute action).1 := by
  have htouched := touchConsulted s action
  have hexecutes := s.executes action
  generalize (s.execute action).1 = s', (s.execute action).2.2 = result at hexecutes ⊢
  cases hexecutes with
  | refused proposed => exact htouched
  | idles proposed => exact htouched
  | fails proposed appended => exact htouched.trans (of_entries rfl)
  | @commits record answer log n proposed appended =>
    have htaken : s.Announces { s.touchConsulted action with log } :=
      htouched.trans (of_entries rfl)
    refine htaken.trans (enact _ _ fun id name values hrecord => ?_)
    exact (Alike.touchConsulted s action).noEntry id (h.noEntry_of_create
      (proposes_iff.mpr ⟨answer, hrecord ▸ proposed⟩))

/-- Leaving lines publishes nothing. -/
theorem leaveAll (s : Engine) (places : List Place) : s.Announces (s.leaveAll places) := by
  induction places generalizing s with
  | nil => exact refl s
  | cons p places ih => exact (modifyTurns s p.segment _).trans (ih _)

/-- Taking turns publishes nothing but the change that follows. -/
theorem takeTurns (h : s.Outlines a) (action : Action) (held : List Place)
    (wanted : List SegmentId) : s.Announces (s.takeTurns action held wanted).1 := by
  induction wanted generalizing s held with
  | nil =>
    unfold Engine.takeTurns
    cases s.requireOpen with
    | error e => exact leaveAll s held
    | ok u => exact (execute h action).trans (leaveAll _ held)
  | cons id wanted ih =>
    have halike := Alike.modifyTurns s id fun _ => (s.entry id).turns.arrive.1
    have harrived := modifyTurns s id fun _ => (s.entry id).turns.arrive.1
    unfold Engine.takeTurns
    simp only
    split
    · exact harrived.trans (ih (h.resembles halike.resembles) _)
    · exact harrived

/-- Coming to a turn publishes nothing. -/
theorem comeTo (s : Engine) (action : Action) (held : List Place) (otherwise : Phase)
    (wanted : List SegmentId) : s.Announces (s.comeTo action held otherwise wanted).1 := by
  cases wanted with
  | nil => exact refl s
  | cons id wanted => exact modifyTurns s id _

/-- Opening a reader publishes nothing. -/
theorem openReader (s : Engine) (name : String) (offset maxLength : Nat) :
    s.Announces (s.openReader name offset maxLength).1 := by
  unfold Engine.openReader
  split
  · exact refl s
  · simp only
    split
    · exact refl s
    · split
      · exact refl s
      · split
        · exact refl s
        · exact silent s _ (fun _ => rfl) fun _ => rfl

/-- A check that fails publishes nothing. -/
theorem ofCheck {α : Type} {check : Except SegmentError α}
    {next : α → Engine × Phase × List Event} (h : ∀ v, s.Announces (next v).1) :
    s.Announces (Phase.ofCheck s check next).1 := by
  cases check with
  | error e => exact refl s
  | ok v => exact h v

/-- The first step of an operation announces. -/
theorem begin (h : s.Outlines a) (barrier : Nat) (request : Request) :
    s.Announces (s.begin barrier request).1 := by
  cases hq : request.changes with
  | true =>
    rcases begin_of_changes s barrier hq with ⟨e, he⟩ | ⟨action, haction, he⟩
    · rw [he]
      exact refl s
    · rw [he]
      exact takeTurns h action [] action.turns
  | false =>
    cases request with
    | lookup name ids cache =>
      refine ofCheck fun _ => ofCheck fun e => ofCheck fun _ => ?_
      simp only
      split
      · exact touch s e.id ids
      · exact touch s e.id ids
    | read name offset maxLength => exact ofCheck fun _ => openReader s name offset maxLength
    | info name wait =>
      simp only [Engine.begin, describe]
      split
      · exact refl s
      · exact refl s
    | _ => cases hq

/-- Settling an operation publishes nothing. -/
theorem settle (s : Engine) (o : Operation) : s.Announces (s.settle o) := by
  unfold Engine.settle
  split
  · exact of_entries rfl
  · exact refl s

/-- Each later step announces. -/
theorem advancePhase (h : s.Outlines a) (o : Operation) : s.Announces (s.advancePhase o).1 := by
  unfold Engine.advancePhase
  split
  · exact begin h o.barrier o.request
  · next action held place wanted _ =>
    have halike := Alike.modifyTurns s place.segment fun l => l.takeUp place.ticket
    have htaken := modifyTurns s place.segment fun l => l.takeUp place.ticket
    simp only
    split
    · exact htaken.trans (takeTurns (h.resembles halike.resembles) action _ wanted)
    · exact htaken
  · exact refl s
  · unfold finishLookup
    simp only
    split
    · exact silent s _ (fun _ => rfl) fun _ => rfl
    · exact refl s
  · exact refl s

/-- An operation that stops at its turn publishes nothing. -/
theorem comeToTurn (s : Engine) (o : Operation) : s.Announces (s.comeToTurn o).1 := by
  unfold Engine.comeToTurn
  split
  · split
    · exact comeTo s _ _ _ _
    · exact refl s
  · next place _ _ =>
    have htaken := modifyTurns s place.segment fun l => l.takeUp place.ticket
    simp only
    split
    · exact htaken.trans (comeTo _ _ _ _ _)
    · exact htaken
  · exact refl s

/-- Writing values through publishes nothing. -/
theorem writeThrough (s : Engine) (id : SegmentId) : s.Announces (s.writeThrough id).1 := by
  unfold Engine.writeThrough
  split
  · exact refl s
  · exact silent s id (fun _ => rfl) fun _ => rfl

/-- Nor does writing those of several segments. -/
theorem writeAllThrough (s : Engine) (ids : List SegmentId) :
    s.Announces (s.writeAllThrough ids).1 := by
  induction ids generalizing s with
  | nil => exact refl s
  | cons id ids ih => exact (writeThrough s id).trans (ih _)

/-- An eviction publishes what it changed. -/
theorem evict (h : s.Outlines a) (name : String) : s.Announces (s.evict name).1 := by
  unfold Engine.evict
  split
  · exact refl s
  · next c hr =>
    have hc := (h.of_resolve hr).2
    intro j e he
    simp only [Table.get?_insert]
    split
    · next hj =>
      subst hj
      obtain rfl := Option.some.inj (hc.symm.trans he)
      exact ⟨_, rfl, .publish rfl⟩
    · exact ⟨e, he, .refl e⟩

/-- A shutdown announces. -/
theorem shutdown (s : Engine) : s.Announces s.shutdown.1 := by
  cases hc : s.closed with
  | true =>
    simp only [Engine.shutdown, hc, ↓reduceIte]
    exact refl s
  | false =>
    rw [shutdown_fst s hc]
    have hclosed : s.Announces { s with closed := true } := of_entries rfl
    exact (hclosed.trans (writeAllThrough _ _)).trans (of_entries rfl)

end Announces

end Engine

namespace Traffic

open Engine

variable {t : Traffic} {a : Account}

/-- An operation that goes no further than to its next turn lets the entries go on. -/
theorem announces_pause (t : Traffic) (i : Nat) : t.engine.Announces (t.pause i).engine := by
  unfold pause
  split
  · exact .refl _
  · exact .comeToTurn _ _

/-- Every move lets the entries go on. -/
theorem announces_step (h : t.engine.Outlines a) (m : Move) :
    t.engine.Announces (t.step m).engine := by
  cases m with
  | submit request timeout =>
    cases ha : t.engine.accept request timeout with
    | error e =>
      simp only [step, ha]
      exact .refl _
    | ok accepted =>
      obtain ⟨-, -, -, pending, hpending⟩ := accept_eq_ok ha
      simp only [step, ha, hpending]
      exact .of_entries rfl
  | advance i =>
    cases ho : t.operations[i]? with
    | none =>
      simp only [step, ho]
      exact .refl _
    | some o =>
      simp only [step, ho]
      exact (Announces.advancePhase h o).trans (.settle _ _)
  | pause i => exact t.announces_pause i
  | abandon i error =>
    cases ho : t.operations[i]? with
    | none =>
      simp only [step, ho]
      exact .refl _
    | some o =>
      simp only [step, ho]
      split
      · exact .refl _
      · exact (Announces.leaveAll t.engine o.phase.places).trans
          (.settle _ { o with phase := .finished (.error error) })
  | evict name => exact .evict h name
  | trim segment max => exact .silent _ segment (fun _ => rfl) fun _ => rfl
  | writeThrough segment => exact .writeThrough _ segment
  | refuse refusing => exact .of_entries rfl
  | tick clock => exact .of_entries rfl
  | crashAfter threshold => exact .of_entries rfl
  | failFlush fail => exact .of_entries rfl
  | close reader => exact .silent _ reader.segment (fun _ => rfl) fun _ => rfl
  | shutdown => exact .shutdown _

end Traffic

end Segments
