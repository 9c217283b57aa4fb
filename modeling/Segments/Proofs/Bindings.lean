import Segments.Proofs.Failure
import Segments.Proofs.Isolation
import Segments.Proofs.Registrations

/-!
# What operations are bound to

An operation that has looked up its segments stays bound to them for good: the places that it takes
are in their lines, and the change that it makes in the end is theirs. So what it does later touches
no segment that was created after it had looked up, under whatever name.
-/

namespace Segments

/-- The turns that an operation has, waits for and wants are those of its change. -/
def Phase.Sited : Phase → Prop
  | inLine action held place wanted =>
    (held.map Place.segment).reverse ++ place.segment :: wanted = action.turns
  | _ => True

namespace Engine

variable {s s' : Engine} {a : Account} {id : SegmentId} {action : Action} {o : Operation}

/-- Turns that are taken in order are those of the change. -/
theorem takeTurns_sited {held : List Place} {wanted : List SegmentId}
    (h : (held.map Place.segment).reverse ++ wanted = action.turns) :
    (s.takeTurns action held wanted).2.1.Sited := by
  induction wanted generalizing s held with
  | nil =>
    unfold takeTurns
    cases s.requireOpen with
    | error e => exact trivial
    | ok u => exact trivial
  | cons id wanted ih =>
    unfold takeTurns
    simp only
    split
    · refine ih ?_
      rw [List.map_cons, List.reverse_cons, List.append_assoc]
      exact h
    · exact h

/-- A line that is come to is that of a turn of the change. -/
theorem comeTo_sited {held : List Place} {otherwise : Phase} {wanted : List SegmentId}
    (h : (held.map Place.segment).reverse ++ wanted = action.turns) (ho : otherwise.Sited) :
    (s.comeTo action held otherwise wanted).2.Sited := by
  cases wanted with
  | nil => exact ho
  | cons id wanted => exact h

/-- A check leads to turns of the change if what comes behind it does. -/
theorem sited_ofCheck {α : Type} {check : Except SegmentError α}
    {next : α → Engine × Phase × List Event} (h : ∀ v, (next v).2.1.Sited) :
    (Phase.ofCheck s check next).2.1.Sited := by
  cases check with
  | error e => exact trivial
  | ok v => exact h v

/-- An operation begins with turns of its change. -/
theorem begin_sited (s : Engine) (barrier : Nat) (request : Request) :
    (s.begin barrier request).2.1.Sited := by
  cases hq : request.changes with
  | true =>
    rcases begin_of_changes s barrier hq with ⟨e, he⟩ | ⟨action, haction, he⟩
    · rw [he]
      exact trivial
    · rw [he]
      exact takeTurns_sited rfl
  | false =>
    cases request with
    | lookup name ids cache =>
      refine sited_ofCheck fun _ => sited_ofCheck fun e => sited_ofCheck fun _ => ?_
      simp only
      split <;> exact trivial
    | read name offset maxLength => exact sited_ofCheck fun _ => trivial
    | info name wait =>
      simp only [begin, describe]
      split <;> exact trivial
    | _ => cases hq

/-- An operation that goes on has turns of its change. -/
theorem advancePhase_sited (s : Engine) (h : o.phase.Sited) :
    (s.advancePhase o).2.1.Sited := by
  unfold advancePhase
  split
  · exact begin_sited s o.barrier o.request
  · next action held place wanted hphase =>
    rw [hphase] at h
    simp only
    split
    · refine takeTurns_sited ?_
      rw [List.map_cons, List.reverse_cons, List.append_assoc]
      exact h
    · exact h
  · exact trivial
  · next id lookup cache values hphase =>
    unfold finishLookup
    simp only
    split <;> exact trivial
  · exact trivial

/-- So has one that goes no further than to its next turn. -/
theorem comeToTurn_sited (s : Engine) (h : o.phase.Sited) : (s.comeToTurn o).2.Sited := by
  unfold comeToTurn
  split
  · split
    · exact comeTo_sited rfl trivial
    · exact trivial
  · next action held place wanted hphase =>
    rw [hphase] at h
    simp only
    split
    · refine comeTo_sited ?_ h
      rw [List.map_cons, List.reverse_cons, List.append_assoc]
      exact h
    · exact h
  · exact h

/-- Who stands in line stands only at lines of its own segments, and these are there. -/
theorem Stands.of_sited {held : List Place} {place : Place} {wanted : List SegmentId}
    (h : s.Stands held place wanted)
    (hs : (Phase.inLine action held place wanted).Sited) :
    (∀ p ∈ place :: held, p.segment ∈ action.segments) ∧ (∀ j ∈ wanted, j ∈ action.segments) ∧
      (∀ next, action.bound next = action.segments) ∧
      ∀ j ∈ action.segments, ∃ e, s.entries.get? j = some e := by
  have hsited : (held.map Place.segment).reverse ++ place.segment :: wanted = action.turns := hs
  have hmem : ∀ j, j ∈ action.turns ↔ (∃ p ∈ place :: held, p.segment = j) ∨ j ∈ wanted := by
    intro j
    rw [← hsited]
    simp only [List.mem_append, List.mem_reverse, List.mem_map, List.mem_cons,
      exists_eq_or_imp, eq_comm (a := j)]
    exact or_assoc.symm.trans (or_congr_left or_comm)
  have hne : action.turns ≠ [] := by
    intro hnil
    rw [hnil] at hmem
    exact List.not_mem_nil ((hmem place.segment).mpr (Or.inl ⟨place, List.mem_cons_self, rfl⟩))
  obtain ⟨hturns, hbound⟩ := Action.turns_of_ne_nil hne
  refine ⟨fun p hp => action.turns_subset ((hmem _).mpr (Or.inl ⟨p, hp, rfl⟩)),
    fun j hj => action.turns_subset ((hmem j).mpr (Or.inr hj)), hbound, fun j hj => ?_⟩
  rcases (hmem j).mp (hturns hj) with ⟨p, hp, rfl⟩ | hwanted
  · exact exists_of_mem_tickets (h.mem_tickets hp)
  · exact h.there j hwanted

/-- A step of an operation leaves all segments alone to which it is not bound. -/
theorem Outlines.sameAt_advancePhase (h : s.Outlines a) (ho : o.phase.Placed s)
    (hs : o.phase.Sited) (hid : id ∉ o.bound s) : s.SameAt (s.advancePhase o).1 id := by
  unfold advancePhase
  split
  · next hphase =>
    rw [Operation.bound, hphase] at hid
    exact h.sameAt_begin o.barrier hid
  · next action held place wanted hphase =>
    rw [Operation.bound, hphase] at hid
    rw [hphase] at ho hs
    obtain ⟨hplaces, hwanted, hbound, hthere⟩ := Stands.of_sited ho hs
    have halike := Alike.modifyTurns s place.segment fun l => l.takeUp place.ticket
    have hother : ∀ p ∈ place :: held, p.segment ≠ id := by
      rintro p hp rfl
      exact hid (hplaces p hp)
    have htaken : s.SameAt (s.modifyTurns place.segment fun l => l.takeUp place.ticket) id :=
      .modifyEntry s _ (hother place List.mem_cons_self).symm
    simp only
    split
    · refine htaken.trans ((h.resembles halike.resembles).sameAt_takeTurns (fun j hj => ?_)
        (by rwa [hbound]) hother fun hin => hid (hwanted id hin))
      obtain ⟨e, he⟩ := hthere j hj
      obtain ⟨e', he', -⟩ := halike.entry j e he
      exact ⟨e', he'⟩
    · exact htaken
  · exact .refl s id
  · next segment lookup cache values hphase =>
    rw [Operation.bound, hphase] at hid
    exact sameAt_finishLookup s lookup cache values (List.ne_of_not_mem_cons hid)
  · exact .refl s id

/-- So does one that goes no further than to its next turn. -/
theorem Outlines.sameAt_comeToTurn (h : s.Outlines a) (ho : o.phase.Placed s)
    (hs : o.phase.Sited) (hid : id ∉ o.bound s) : s.SameAt (s.comeToTurn o).1 id := by
  unfold comeToTurn
  split
  · next hphase =>
    rw [Operation.bound, hphase] at hid
    split
    · next action _ haction =>
      obtain ⟨hbound, -⟩ := h.bound_of_action? haction
      refine sameAt_comeTo s action [] .accepted fun hin => hid (hbound ?_)
      exact action.segments_subset_bound _ (action.turns_subset hin)
    · exact .refl s id
  · next action held place wanted hphase =>
    rw [Operation.bound, hphase] at hid
    rw [hphase] at ho hs
    obtain ⟨hplaces, hwanted, -⟩ := Stands.of_sited ho hs
    have htaken : s.SameAt (s.modifyTurns place.segment fun l => l.takeUp place.ticket) id := by
      refine .modifyEntry s _ ?_
      rintro rfl
      exact hid (hplaces place List.mem_cons_self)
    simp only
    split
    · exact htaken.trans (sameAt_comeTo _ _ _ _ fun hin => hid (hwanted id hin))
    · exact htaken
  · exact .refl s id

/-- And one that is given up. -/
theorem sameAt_abandon (ho : o.phase.Placed s) (hs : o.phase.Sited) (hid : id ∉ o.bound s)
    (error : SegmentError) : s.SameAt (s.abandon o error).1 id := by
  refine (sameAt_leaveAll s fun p hp => ?_).trans
    (sameAt_settle (s.leaveAll o.phase.places) { o with phase := .finished (.error error) })
  cases hphase : o.phase with
  | inLine action held place wanted =>
    rw [Operation.bound, hphase] at hid
    rw [hphase] at ho hs hp
    rintro rfl
    exact hid ((Stands.of_sited ho hs).1 p hp)
  | _ =>
    rw [hphase] at hp
    cases hp

/-- Taking turns binds an operation to segments of its change only. -/
theorem bound_takeTurns (s : Engine) (action : Action) (held : List Place)
    (wanted : List SegmentId) : (s.takeTurns action held wanted).2.1 ≠ .accepted ∧
      (s.takeTurns action held wanted).2.1.bound ⊆ action.segments := by
  induction wanted generalizing s held with
  | nil =>
    unfold takeTurns
    cases s.requireOpen with
    | error e => exact ⟨by rintro ⟨⟩, List.nil_subset _⟩
    | ok u => exact ⟨by rintro ⟨⟩, List.nil_subset _⟩
  | cons id wanted ih =>
    unfold takeTurns
    simp only
    split
    · exact ih _ _
    · exact ⟨by rintro ⟨⟩, List.Subset.refl _⟩

/-- What an operation has looked up it does not look up again. -/
theorem bound_advancePhase (s : Engine) (h : o.phase ≠ .accepted) :
    (s.advancePhase o).2.1 ≠ .accepted ∧ (s.advancePhase o).2.1.bound ⊆ o.phase.bound := by
  unfold advancePhase
  split
  · next hphase => exact absurd hphase h
  · next action held place wanted hphase =>
    rw [hphase]
    simp only
    split
    · exact bound_takeTurns _ action _ wanted
    · exact ⟨by rintro ⟨⟩, List.Subset.refl _⟩
  · next id lookup cache hphase =>
    rw [hphase]
    exact ⟨by rintro ⟨⟩, List.Subset.refl _⟩
  · unfold finishLookup
    simp only
    split
    · exact ⟨by rintro ⟨⟩, List.nil_subset _⟩
    · exact ⟨by rintro ⟨⟩, List.nil_subset _⟩
  · exact ⟨by rintro ⟨⟩, List.nil_subset _⟩

/-- Coming to the next turn binds an operation to no other segment. -/
theorem bound_comeToTurn (s : Engine) (h : o.phase ≠ .accepted) :
    (s.comeToTurn o).2 ≠ .accepted ∧ (s.comeToTurn o).2.bound ⊆ o.phase.bound := by
  unfold comeToTurn
  split
  · next hphase => exact absurd hphase h
  · next action held place wanted hphase =>
    rw [hphase]
    simp only
    split
    · cases wanted with
      | nil => exact ⟨by rintro ⟨⟩, List.Subset.refl _⟩
      | cons id wanted => exact ⟨by rintro ⟨⟩, List.Subset.refl _⟩
    · exact ⟨by rintro ⟨⟩, List.Subset.refl _⟩
  · exact ⟨h, List.Subset.refl _⟩

/-- The segments that an operation has looked up are there. -/
theorem Outlines.lt_nextId_of_bound (h : s.Outlines a) (ho : o.phase.Placed s)
    (hs : o.phase.Sited) (hv : o.Valid s a) (hid : id ∈ o.phase.bound) : id < s.nextId := by
  have hthere : ∃ e, s.entries.get? id = some e := by
    unfold Operation.Valid at hv
    cases hphase : o.phase with
    | inLine action held place wanted =>
      rw [hphase] at ho hs hid
      exact (Stands.of_sited ho hs).2.2.2 id hid
    | fetching segment lookup cache =>
      rw [hphase] at hv hid
      obtain rfl := List.mem_singleton.mp hid
      obtain ⟨e, he, -⟩ := hv
      exact ⟨e, he⟩
    | fetched segment lookup cache values =>
      rw [hphase] at hv hid
      obtain rfl := List.mem_singleton.mp hid
      obtain ⟨e, he, -⟩ := hv
      exact ⟨e, he⟩
    | _ =>
      rw [hphase] at hid
      cases hid
  obtain ⟨e, he⟩ := hthere
  exact h.numbered he

/-! ## Merges -/

/-- A segment has the same attributes in two stores, recency aside. -/
structure SameAttributes (s s' : Engine) (id : SegmentId) : Prop where
  /-- The same values are resident. -/
  peek : ∀ x, (s'.entry id).metadata.attributes.cache.peek x =
    (s.entry id).metadata.attributes.cache.peek x
  /-- The same values wait for the attribute store. -/
  unstored : (s'.entry id).metadata.attributes.unstored =
    (s.entry id).metadata.attributes.unstored
  /-- The same values are stored. -/
  store : ∀ x, s'.store.get? id x = s.store.get? id x
  /-- All attributes have the same values. -/
  values : ∀ x, s'.valueOf (s'.entry id) x = s.valueOf (s.entry id) x

/-- The same attributes are kept through two steps. -/
theorem SameAttributes.trans {s'' : Engine} (h : s.SameAttributes s' id)
    (h' : s'.SameAttributes s'' id) : s.SameAttributes s'' id where
  peek x := (h'.peek x).trans (h.peek x)
  unstored := h'.unstored.trans h.unstored
  store x := (h'.store x).trans (h.store x)
  values x := (h'.values x).trans (h.values x)

/-- Stores that are alike have the same attributes. -/
theorem Alike.sameAttributes (h : s.Alike s') (id : SegmentId) : s.SameAttributes s' id := by
  have halike := h.entry_alike id
  refine ⟨halike.attributes.peek, halike.attributes.unstored, fun x => by rw [h.store],
    fun x => ?_⟩
  rw [valueOf, valueOf, AttributeTiers.value, AttributeTiers.value,
    halike.attributes.resident? x, Entry.id, Entry.id, halike.id, h.store]

/-- The same tiers over the same stored values. -/
theorem SameAttributes.of_tiers {e e' : Entry} (he : s.entries.get? id = some e)
    (he' : s'.entries.get? id = some e') (hown : e.id = id) (hown' : e'.id = id)
    (htiers : e'.metadata.attributes = e.metadata.attributes)
    (hstore : ∀ x, s'.store.get? id x = s.store.get? id x) : s.SameAttributes s' id := by
  refine ⟨fun x => ?_, ?_, hstore, fun x => ?_⟩
  · rw [entry_eq he, entry_eq he', htiers]
  · rw [entry_eq he, entry_eq he', htiers]
  · rw [entry_eq he, entry_eq he', valueOf, valueOf, AttributeTiers.value, AttributeTiers.value,
      htiers, hown, hown', hstore]

/-- To apply a merge leaves the attributes of its target. -/
theorem Outlines.sameAttributes_enact (h : s.Outlines a) {target source : SegmentId}
    (hne : target ≠ source) (hthere : ∃ e, s.entries.get? target = some e) (callerName : String)
    (length offset : Nat) :
    s.SameAttributes (s.enact callerName (.merge target source length offset)).1 target := by
  obtain ⟨e, he⟩ := hthere
  have hown := (h.of_entry he).1
  have hentry : ∃ e', (s.enact callerName (.merge target source length offset)).1.entries.get?
      target = some e' ∧ e'.id = e.id ∧ e'.metadata.attributes = e.metadata.attributes := by
    simp only [Engine.enact, dropStored_fst, modifyEntry, Table.get?_modify, if_neg hne, ↓reduceIte,
      he]
    exact ⟨_, rfl, rfl, rfl⟩
  obtain ⟨e', he', hown', htiers⟩ := hentry
  refine .of_tiers he he' hown (hown'.trans hown) htiers fun x => ?_
  simp only [Engine.enact, dropStored_fst]
  exact AttributeStore.get?_removeSegment_of_ne s.store hne x

/-- A merge leaves the attributes of its target. -/
theorem Outlines.sameAttributes_merge (h : s.Outlines a) {target source : SegmentId}
    (hne : target ≠ source) (hthere : ∀ j ∈ [target, source], ∃ e, s.entries.get? j = some e) :
    s.SameAttributes (s.execute (.merge target source)).1 target := by
  have hids : ∀ j ∈ [target, source], (s.entry j).id = j := fun j hj => h.id_entry (hthere j hj)
  have hexecutes := s.executes (.merge target source)
  generalize (s.execute (.merge target source)).1 = s',
    (s.execute (.merge target source)).2.2 = result at hexecutes ⊢
  cases hexecutes with
  | refused proposed => exact (Alike.refl s).sameAttributes target
  | idles proposed => exact (Alike.refl s).sameAttributes target
  | fails proposed appended =>
    exact ⟨fun _ => rfl, rfl, fun _ => rfl, fun _ => rfl⟩
  | @commits record answer log n proposed appended =>
    have hproposes := proposes_iff.mpr ⟨_, proposed⟩
    cases hproposes with
    | merge active sealed =>
      rw [hids target List.mem_cons_self,
        hids source (List.mem_cons_of_mem _ List.mem_cons_self)]
      have htaken : s.SameAttributes
          ({ s.touchConsulted (.merge target source) with log } : Engine) target :=
        ⟨fun _ => rfl, rfl, fun _ => rfl, fun _ => rfl⟩
      have houtlines :
          ({ s.touchConsulted (.merge target source) with log } : Engine).Outlines a :=
        h.resembles (.of_entries rfl rfl rfl)
      exact htaken.trans
        (houtlines.sameAttributes_enact hne (hthere target List.mem_cons_self) _ _ _)

/-- The segments of an operation that is about to merge are there, and they are two. -/
theorem Outlines.merge_of_action? (h : s.Outlines a) (ha : a.WellFormed) (ho : o.phase.Placed s)
    (hs : o.phase.Sited)
    (hne : ∀ target source, o.request = .merge target source → target ≠ source)
    {target source : SegmentId} (hasked : o.action? s = some (.merge target source)) :
    target ≠ source ∧ ∀ j ∈ [target, source], ∃ e, s.entries.get? j = some e := by
  unfold Operation.action? at hasked
  split at hasked
  · obtain ⟨horder, -⟩ := h.turns_of_action? ha hasked hne
    refine ⟨?_, (h.bound_of_action? hasked).2⟩
    rintro rfl
    simp [Action.turns] at horder
  · next action held place wanted hphase =>
    obtain rfl := Option.some.inj hasked
    rw [hphase] at ho hs
    have horder := ho.order
    have hsited : (held.map Place.segment).reverse ++ place.segment :: wanted =
        (Action.merge target source).turns := hs
    refine ⟨?_, (Stands.of_sited ho hs).2.2.2⟩
    rintro rfl
    have hturns : wanted.reverse ++ place.segment :: held.map Place.segment = [target, target] := by
      rw [← List.reverse_inj]
      simpa [Action.turns] using hsited
    rw [hturns] at horder
    simp at horder
  · cases hasked

/-- A step of an operation that is to merge leaves the attributes of the target. -/
theorem Outlines.sameAttributes_advancePhase (h : s.Outlines a) (ha : a.WellFormed)
    (ho : o.phase.Placed s) (hs : o.phase.Sited)
    (hne : ∀ target source, o.request = .merge target source → target ≠ source)
    {target source : SegmentId} (hasked : o.action? s = some (.merge target source)) :
    s.SameAttributes (s.advancePhase o).1 target := by
  obtain ⟨htwo, hthere⟩ := h.merge_of_action? ha ho hs hne hasked
  have hgoes := s.advancePhase_goes o
  generalize (s.advancePhase o).1 = s', (s.advancePhase o).2.1 = phase at hgoes
  cases hgoes with
  | waits alike => exact alike.sameAttributes target
  | queues held place wanted asked alike => exact alike.sameAttributes target
  | closes closed alike => exact alike.sameAttributes target
  | answers result none fails alike => exact alike.sameAttributes target
  | executes asked alike isOpen after =>
    obtain rfl := Option.some.inj (hasked.symm.trans asked)
    refine ((alike.sameAttributes target).trans ((h.resembles alike.resembles).sameAttributes_merge
      htwo fun j hj => ?_)).trans (after.sameAttributes target)
    obtain ⟨e, he⟩ := hthere j hj
    obtain ⟨e', he', -⟩ := alike.entry j e he
    exact ⟨e', he'⟩
  | begins ids cache found readable quiet =>
    exact (Alike.touch s _ ids).sameAttributes target
  | reads hphase => exact (Alike.refl s).sameAttributes target
  | ends hphase =>
    rw [Operation.action?, hphase] at hasked
    cases hasked
  | stays hphase => exact (Alike.refl s).sameAttributes target

end Engine

namespace Traffic

open Engine

variable {t : Traffic} {i : Nat} {o : Operation} {id : SegmentId} {a : Account}

section

variable {P : Phase → Prop} (haccepted : P .accepted) (hfinished : ∀ result, P (.finished result))
  (hadvance : ∀ (s : Engine) (o : Operation), P o.phase → P (s.advancePhase o).2.1)
  (hcome : ∀ (s : Engine) (o : Operation), P o.phase → P (s.comeToTurn o).2)

include haccepted hfinished hadvance hcome

/-- What holds of every operation that is accepted, has ended, or has taken a step, holds of all
operations after a stride. -/
theorem phases_stride (h : ∀ (i : Nat) (o : Operation), t.operations[i]? = some o → P o.phase)
    (x : Stride) : ∀ (i : Nat) (o : Operation),
      (t.stride x).operations[i]? = some o → P o.phase := by
  have hset : ∀ {i : Nat} {o' : Operation} {engine : Engine}, P o'.phase →
      ∀ (j : Nat) (c : Operation),
        (Traffic.mk engine (t.operations.set i o')).operations[j]? = some c → P c.phase := by
    intro i o' engine ho' j c hc
    rcases getElem?_set_cases hc with ⟨-, rfl⟩ | ⟨-, hold⟩
    · exact ho'
    · exact h j c hold
  cases x with
  | reopened config contents clock =>
    simp only [stride]
    split
    · intro j c hc
      cases hc
    · exact h
  | moved m =>
    cases m with
    | submit request timeout =>
      simp only [stride, step]
      split
      · exact h
      · next engine o hsubmitted =>
        obtain ⟨-, -, hphase, -⟩ := accept_eq_ok hsubmitted
        intro j c hc
        rcases getElem?_concat_cases hc with ⟨-, hold⟩ | ⟨-, rfl⟩
        · exact h j c hold
        · rw [hphase]
          exact haccepted
    | advance i =>
      simp only [stride, step]
      split
      · exact h
      · next o ho => exact hset (hadvance t.engine o (h i o ho))
    | pause i =>
      simp only [stride, step, pause]
      split
      · exact h
      · next o ho => exact hset (hcome t.engine o (h i o ho))
    | abandon i error =>
      simp only [stride, step]
      split
      · exact h
      · split
        · exact h
        · exact hset (hfinished (.error error))
    | _ => exact h

/-- So it is after any strides. -/
theorem phases_along (h : ∀ (i : Nat) (o : Operation), t.operations[i]? = some o → P o.phase)
    (strides : List Stride) : ∀ (i : Nat) (o : Operation),
      (t.along strides).operations[i]? = some o → P o.phase := by
  induction strides using List.reverseRecOn with
  | nil => exact h
  | append_singleton strides x ih =>
    rw [along_snoc]
    exact phases_stride haccepted hfinished hadvance hcome ih x

end

/-- After any strides operations are placed at lines of their own segments. -/
theorem sited_along (config : Config) (logged : Bool) (clock : AttributeValue)
    (strides : List Stride) : ∀ (i : Nat) (o : Operation),
      ((start config logged clock).along strides).operations[i]? = some o → o.phase.Sited :=
  phases_along trivial (fun _ => trivial) (fun s _ => advancePhase_sited s)
    (fun s _ => comeToTurn_sited s) (fun i o ho => by cases ho) strides

/-- The segments that an operation is bound to. -/
def boundOf (t : Traffic) (i : Nat) : List SegmentId :=
  match t.operations[i]? with
  | some o => o.bound t.engine
  | none => []

/-- What an operation has looked up does not depend on the store. -/
theorem boundOf_of_ne (ho : t.operations[i]? = some o) (h : o.phase ≠ .accepted) :
    t.boundOf i = o.phase.bound := by
  unfold boundOf Operation.bound
  simp only [ho]

end Traffic

/-- The segments that a move is bound to. -/
def Move.bound (t : Traffic) : Move → List SegmentId
  | advance i | pause i | abandon i _ => t.boundOf i
  | evict name => (t.engine.names.get? name).toList
  | trim segment _ | writeThrough segment => [segment]
  | close reader => [reader.segment]
  | shutdown => t.engine.liveEntries.map Entry.id
  | submit .. | refuse _ | tick _ | crashAfter _ | failFlush _ => []

namespace Traffic

open Engine

variable {t : Traffic} {i : Nat} {o : Operation} {id : SegmentId} {a : Account}

/-- An operation that goes no further than to its next turn leaves all segments alone to which it is
not bound. -/
theorem Queued.sameAt_pause (hq : t.Queued) (h : t.engine.Outlines a)
    (hs : ∀ (i : Nat) (o : Operation), t.operations[i]? = some o → o.phase.Sited)
    (hid : id ∉ t.boundOf i) :
    t.engine.SameAt (t.pause i).engine id := by
  cases ho : t.operations[i]? with
  | none =>
    simp only [Traffic.pause, ho]
    exact .refl _ id
  | some o =>
    simp only [boundOf, ho] at hid
    simp only [Traffic.pause, ho]
    exact h.sameAt_comeToTurn (hq.placed i o ho) (hs i o ho) hid

/-- So does every move. -/
theorem Queued.sameAt_step (hq : t.Queued) (h : t.engine.Outlines a)
    (hs : ∀ (i : Nat) (o : Operation), t.operations[i]? = some o → o.phase.Sited)
    {m : Move} (hid : id ∉ m.bound t) :
    t.engine.SameAt (t.step m).engine id := by
  cases m with
  | submit request timeout =>
    cases ha : t.engine.accept request timeout with
    | error e =>
      simp only [Traffic.step, ha]
      exact .refl _ id
    | ok accepted =>
      obtain ⟨-, -, -, pending, hpending⟩ := accept_eq_ok ha
      simp only [Traffic.step, ha, hpending]
      exact .of_eq rfl (fun _ => rfl) rfl
  | advance i =>
    cases ho : t.operations[i]? with
    | none =>
      simp only [Traffic.step, ho]
      exact .refl _ id
    | some o =>
      simp only [Move.bound, boundOf, ho] at hid
      simp only [Traffic.step, ho]
      exact (h.sameAt_advancePhase (hq.placed i o ho) (hs i o ho) hid).trans (sameAt_settle _ _)
  | pause i => exact hq.sameAt_pause h hs hid
  | abandon i error =>
    cases ho : t.operations[i]? with
    | none =>
      simp only [Traffic.step, ho]
      exact .refl _ id
    | some o =>
      simp only [Move.bound, boundOf, ho] at hid
      simp only [Traffic.step, ho]
      split
      · exact .refl _ id
      · exact sameAt_abandon (hq.placed i o ho) (hs i o ho) hid error
  | evict name => exact h.sameAt_evict fun hn => hid (Option.mem_toList.mpr hn)
  | trim segment max => exact .modifyEntry _ _ (List.ne_of_not_mem_cons hid)
  | writeThrough segment => exact sameAt_writeThrough _ (List.ne_of_not_mem_cons hid)
  | refuse refusing => exact .of_eq rfl (fun _ => rfl) rfl
  | tick clock => exact .of_eq rfl (fun _ => rfl) rfl
  | crashAfter threshold => exact .of_eq rfl (fun _ => rfl) rfl
  | failFlush fail => exact .of_eq rfl (fun _ => rfl) rfl
  | close reader => exact .modifyEntry _ _ (List.ne_of_not_mem_cons hid)
  | shutdown => exact sameAt_shutdown _ hid

/-- A move of an operation that is to merge leaves the attributes of the target. -/
theorem Queued.sameAttributes_step (hq : t.Queued) (h : t.engine.Outlines a) (ha : a.WellFormed)
    (hs : ∀ (i : Nat) (o : Operation), t.operations[i]? = some o → o.phase.Sited)
    (ho : t.operations[i]? = some o)
    {target source : SegmentId} (hasked : o.action? t.engine = some (.merge target source))
    {m : Move} (hm : m.concerns i) : t.engine.SameAttributes (t.step m).engine target := by
  cases m with
  | submit request timeout =>
    cases haccepted : t.engine.accept request timeout with
    | error e =>
      simp only [Traffic.step, haccepted]
      exact (Alike.refl _).sameAttributes target
    | ok accepted =>
      obtain ⟨-, -, -, pending, hpending⟩ := accept_eq_ok haccepted
      simp only [Traffic.step, haccepted, hpending]
      exact (Alike.withPending t.engine pending).sameAttributes target
  | advance j =>
    obtain rfl : j = i := hm
    simp only [Traffic.step, ho]
    exact (h.sameAttributes_advancePhase ha (hq.placed j o ho) (hs j o ho) (hq.merges j o ho)
      hasked).trans ((Alike.settle _ _).sameAttributes target)
  | pause j => exact (t.pause_alike j).sameAttributes target
  | abandon j error =>
    obtain rfl : j = i := hm
    simp only [Traffic.step, ho]
    split
    · exact (Alike.refl _).sameAttributes target
    · exact (Alike.abandon t.engine o error).sameAttributes target
  | _ => exact hm.elim

/-- An operation that has looked up its segments is bound to no others later. -/
theorem bound_stride (ho : t.operations[i]? = some o) (h : o.phase ≠ .accepted) {x : Stride}
    (hx : x.staysOpen = true) : ∃ o', (t.stride x).operations[i]? = some o' ∧
      o'.phase ≠ .accepted ∧ o'.phase.bound ⊆ o.phase.bound := by
  cases x with
  | moved m =>
    rcases operations_step t m ho with hsame | ⟨-, hadvanced⟩ | ⟨-, hpaused⟩ | ⟨-, e, hfailed⟩
    · exact ⟨o, hsame, h, List.Subset.refl _⟩
    · exact ⟨_, hadvanced, bound_advancePhase t.engine h⟩
    · exact ⟨_, hpaused, bound_comeToTurn t.engine h⟩
    · exact ⟨_, hfailed, by rintro ⟨⟩, List.nil_subset _⟩
  | reopened config contents clock => cases hx

/-- An operation that has begun is never bound to another segment. -/
theorem bound_along (ho : t.operations[i]? = some o) (h : o.phase ≠ .accepted)
    {strides : List Stride} (hopen : ∀ x ∈ strides, x.staysOpen = true) :
    ∃ o', (t.along strides).operations[i]? = some o' ∧
      o'.phase ≠ .accepted ∧ o'.phase.bound ⊆ o.phase.bound := by
  induction strides generalizing t o with
  | nil => exact ⟨o, ho, h, List.Subset.refl _⟩
  | cons x strides ih =>
    obtain ⟨hx, hstrides⟩ := List.forall_mem_cons.mp hopen
    obtain ⟨o₁, ho₁, h₁, hsubset₁⟩ := bound_stride ho h hx
    obtain ⟨o₂, ho₂, h₂, hsubset₂⟩ := ih ho₁ h₁ hstrides
    exact ⟨o₂, ho₂, h₂, List.Subset.trans hsubset₂ hsubset₁⟩

end Traffic

end Segments
