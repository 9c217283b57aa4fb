import Segments.Proofs.Outline
import Segments.Proofs.Traffic

/-!
# What a move does to outlines

Most of what happens to a store leaves it at rest: the outlines of its segments and the records of
its journal stay what they are. A move that does more offers one record to the journal; if the
record is taken it is applied, and otherwise the store stays at rest but for the end of the journal.
At any time readers are told the present tails, and the resident extended values are within the
configured bound.
-/

namespace Segments

namespace AttributeCache

/-- Trimming leaves at most so many extended values, and adds none. -/
theorem size_trim (c : AttributeCache) (max : Nat) :
    (c.trim max).1.extended.size ≤ max ∧ (c.trim max).1.extended.size ≤ c.extended.size := by
  refine ⟨?_, List.length_filter_le _ _⟩
  let excess := c.extended.size - max
  let oldest := (c.byAge.take excess).map Prod.fst
  have hperm : c.byAge.Perm c.extended.entries := List.mergeSort_perm _ _
  have hlength : c.byAge.length = c.extended.size := hperm.length_eq
  have hfront : (c.byAge.take excess).filter (fun e => !oldest.contains e.1) = [] := by
    rw [List.filter_eq_nil_iff]
    intro e he
    have hin : e.1 ∈ oldest := List.mem_map.mpr ⟨e, he, rfl⟩
    simp [hin]
  have hkept : (c.byAge.filter fun e => !oldest.contains e.1).length ≤ c.byAge.length - excess := by
    rw [← List.take_append_drop excess c.byAge, List.filter_append, hfront, List.nil_append,
      List.take_append_drop, ← List.length_drop]
    exact List.length_filter_le _ _
  calc (c.trim max).1.extended.size
      = (c.byAge.filter fun e => !oldest.contains e.1).length := (hperm.filter _).length_eq.symm
    _ ≤ c.byAge.length - excess := hkept
    _ ≤ max := by omega

end AttributeCache

namespace Entry

variable {max : Nat} {e : Entry}

/-- Attributes take the place of others, within the bound. -/
theorem InOrder.withAttributes (h : e.InOrder max) {t : AttributeTiers}
    (ht : t.cache.extended.size ≤ max) :
    InOrder max { e with metadata := { e.metadata with attributes := t } } :=
  ⟨h.published, ht⟩

/-- An entry that ended is in order. -/
theorem inOrder_ended (e : Entry) (state : SegmentState) (mergedInto : Option SegmentId) :
    (Engine.ended e state mergedInto).publish.InOrder max := ⟨rfl, Nat.zero_le _⟩

end Entry

/-- After values were applied the extended ones in the cache are within the bound. -/
theorem AttributeTiers.size_apply (t : AttributeTiers) (store : AttributeStore)
    (segment : SegmentId) (name : String) (maxCached : Nat) (values : AttributeValues) :
    (t.apply store segment name maxCached values).1.cache.extended.size ≤ maxCached :=
  (AttributeCache.size_trim _ maxCached).1

namespace Engine

/-- Every entry is in order. -/
def InOrder (s : Engine) : Prop :=
  ∀ id e, s.entries.get? id = some e → e.InOrder s.config.maxCachedAttributes

variable {s s' s'' : Engine} {a : Account}

/-- What holds of every entry, after one has changed. -/
theorem forall_modifyEntry {P Q : SegmentId → Entry → Prop}
    (h : ∀ j e, s.entries.get? j = some e → P j e) {id : SegmentId} {f : Entry → Entry}
    (hother : ∀ j e, j ≠ id → P j e → Q j e) (hself : ∀ e, P id e → Q id (f e)) :
    ∀ j e, (s.modifyEntry id f).entries.get? j = some e → Q j e := by
  intro j e he
  rw [modifyEntry, Table.get?_modify] at he
  split at he
  · next hj =>
    obtain ⟨c, hc, rfl⟩ := Option.map_eq_some_iff.mp he
    exact hj ▸ hself c (hj ▸ h j c hc)
  · next hj => exact hother j e hj (h j e he)

/-- A store stays in order if the entry that changes does. -/
theorem InOrder.modifyEntry (h : s.InOrder) (id : SegmentId) {f : Entry → Entry}
    (hf : ∀ e, e.InOrder s.config.maxCachedAttributes →
      (f e).InOrder s.config.maxCachedAttributes) : (s.modifyEntry id f).InOrder :=
  forall_modifyEntry (P := fun _ e => e.InOrder s.config.maxCachedAttributes) h
    (fun _ _ _ he => he) hf

/-- What holds of every entry, after one has taken in attribute values. -/
theorem forall_applyAttributes {P Q : SegmentId → Entry → Prop}
    (h : ∀ j e, s.entries.get? j = some e → P j e) {id : SegmentId} (values : AttributeValues)
    (hother : ∀ j e, j ≠ id → P j e → Q j e)
    (hself : ∀ (e : Entry) (t : AttributeTiers), P id e →
      t.cache.extended.size ≤ s.config.maxCachedAttributes →
      Q id { e with metadata := { e.metadata with attributes := t } }) :
    ∀ j e, (s.applyAttributes id values).1.entries.get? j = some e → Q j e :=
  forall_modifyEntry h hother fun e he => hself e _ he (AttributeTiers.size_apply
    (s.entry id).metadata.attributes s.store id (s.entry id).name s.config.maxCachedAttributes
    values)

/-- A record that is applied leaves the entries in order. -/
theorem InOrder.enact (h : s.InOrder) (callerName : String) (record : Record) :
    (s.enact callerName record).1.InOrder := by
  cases record with
  | create id name values =>
    intro j e he
    change (s.entries.insert id _).get? j = some e at he
    rw [Table.get?_insert] at he
    split at he
    · obtain rfl := Option.some.inj he
      exact ⟨rfl, AttributeTiers.size_apply _ _ _ _ _ _⟩
    · exact h j e he
  | append id offset data values =>
    -- between the growth and the end the tail of this one segment is not the one published
    let Q (j : SegmentId) (e : Entry) : Prop :=
      (j ≠ id → e.published = e.metadata.tail) ∧
        e.metadata.attributes.cache.extended.size ≤ s.config.maxCachedAttributes
    have hgrown := forall_modifyEntry (Q := Q) (f := fun e => { e with
      data := e.data ++ data
      metadata := { e.metadata with length := e.metadata.length + data.length } }) h
      (fun _ _ _ he => ⟨fun _ => he.published, he.cached⟩)
      (fun _ he => ⟨fun hne => absurd rfl hne, he.cached⟩)
    have happlied := forall_applyAttributes (Q := Q) hgrown values (fun _ _ _ he => he)
      fun _ _ _ ht => ⟨fun hne => absurd rfl hne, ht⟩
    exact forall_modifyEntry (f := Entry.publish)
      (Q := fun _ e => e.InOrder s.config.maxCachedAttributes) happlied
      (fun _ _ hne he => ⟨he.1 hne, he.2⟩) (fun _ he => ⟨rfl, he.2⟩)
  | updateAttributes id values =>
    exact forall_applyAttributes (Q := fun _ e => e.InOrder s.config.maxCachedAttributes) h values
      (fun _ _ _ he => he) fun _ _ he ht => he.withAttributes ht
  | sealing id length => exact h.modifyEntry id fun _ he => ⟨rfl, he.cached⟩
  | merge target source sourceLength offset =>
    simp only [Engine.enact, dropStored_fst]
    have hgrown := h.modifyEntry target (f := fun e => { e with
      data := e.data ++ (s.entry source).data.take sourceLength
      metadata := { e.metadata with length := e.metadata.length + sourceLength } }.publish)
      fun _ he => ⟨rfl, he.cached⟩
    exact hgrown.modifyEntry source fun e _ => e.inOrder_ended .merged (some target)
  | truncate id offset => exact h.modifyEntry id fun _ he => ⟨rfl, he.cached⟩
  | delete id =>
    simp only [Engine.enact, dropStored_fst]
    exact h.modifyEntry id fun e _ => e.inOrder_ended .deleted e.metadata.mergedInto

/-- The outlines and the records of the journal stay what they are. -/
structure Rests (s s' : Engine) : Prop where
  /-- The engines resemble each other. -/
  resembles : s.Resembles s'
  /-- The configurations agree. -/
  config : s'.config = s.config
  /-- What was in order still is. -/
  inOrder : s.InOrder → s'.InOrder
  /-- The journal holds what it has held. -/
  holds : ∀ rs rest, s.log.Holds rs rest → s'.log.Holds rs rest

namespace Rests

theorem refl (s : Engine) : s.Rests s := ⟨.refl s, rfl, fun h => h, fun _ _ h => h⟩

theorem trans (h : s.Rests s') (h' : s'.Rests s'') : s.Rests s'' :=
  ⟨h.resembles.trans h'.resembles, h'.config.trans h.config, fun ho => h'.inOrder (h.inOrder ho),
    fun rs rest hl => h'.holds rs rest (h.holds rs rest hl)⟩

/-- An engine with the same entries. -/
theorem of_entries (hentries : s'.entries = s.entries) (hnames : s'.names = s.names)
    (hnext : s'.nextId = s.nextId) (hconfig : s'.config = s.config)
    (hholds : ∀ rs rest, s.log.Holds rs rest → s'.log.Holds rs rest) : s.Rests s' := by
  refine ⟨.of_entries hentries hnames hnext, hconfig, fun ho id e he => ?_, hholds⟩
  rw [hentries] at he
  rw [hconfig]
  exact ho id e he

/-- The attributes of one entry change. -/
theorem modifyEntry (s : Engine) (id : SegmentId) {f : Entry → Entry}
    (hf : ∀ e, s.entries.get? id = some e → e.Resembles (f e))
    (ho : ∀ e, e.InOrder s.config.maxCachedAttributes →
      (f e).InOrder s.config.maxCachedAttributes) : s.Rests (s.modifyEntry id f) :=
  ⟨.of_modifyEntry s id hf, rfl, fun h => h.modifyEntry id ho, fun _ _ h => h⟩

/-- Another attribute store leaves outlines and records. -/
theorem withStore (s : Engine) (store : AttributeStore) : s.Rests { s with store } :=
  of_entries rfl rfl rfl rfl fun _ _ h => h

/-- Trimming a cache leaves outlines and records. -/
theorem trim (s : Engine) (id : SegmentId) (max : Nat) : s.Rests (s.trim id max) :=
  modifyEntry s id (fun _ _ => rfl) fun _ he => he.withAttributes
    (Nat.le_trans (AttributeCache.size_trim _ max).2 he.cached)

/-- So does finishing a look-up. -/
theorem finishLookup (s : Engine) (id : SegmentId) (l : AttributeLookup) (cache : Bool)
    (values : AttributeValues) : s.Rests (s.finishLookup id l cache values).1 := by
  unfold Engine.finishLookup
  simp only
  split
  · exact modifyEntry s id (fun _ _ => rfl) fun _ he => he.withAttributes
      (AttributeCache.size_trim _ _).1
  · exact refl s

/-- So does writing values through. -/
theorem writeThrough (s : Engine) (id : SegmentId) : s.Rests (s.writeThrough id).1 := by
  unfold Engine.writeThrough
  cases he : s.entries.get? id with
  | none => exact refl s
  | some e =>
    have hcache : (e.metadata.attributes.writeThrough s.store id e.name).1.cache =
        e.metadata.attributes.cache := by
      rcases AttributeTiers.writeThrough_cases e.metadata.attributes s.store id e.name with
        ⟨ht, -⟩ | ⟨ht, -⟩ <;> rw [ht]
    have hmodified := Resembles.of_modifyEntry s id (f := fun e' => { e' with metadata :=
      { e'.metadata with attributes :=
        (e.metadata.attributes.writeThrough s.store id e.name).1 } }) fun _ _ => rfl
    refine ⟨⟨hmodified.entries, rfl, rfl⟩, rfl, fun ho => ?_, fun _ _ h => h⟩
    have hsize := (ho id e he).cached
    rw [← hcache] at hsize
    exact ho.modifyEntry id fun _ he' => he'.withAttributes hsize

/-- So does writing those of several segments. -/
theorem writeAllThrough (s : Engine) (ids : List SegmentId) :
    s.Rests (s.writeAllThrough ids).1 := by
  induction ids generalizing s with
  | nil => exact refl s
  | cons id ids ih => exact (writeThrough s id).trans (ih _)

/-- A live segment is evicted; its entry is found by its number. -/
theorem evict (h : s.Outlines a) (name : String) : s.Rests (s.evict name).1 := by
  unfold Engine.evict
  cases hr : s.resolve name with
  | error e => exact refl s
  | ok e =>
    obtain ⟨id, -, hl⟩ := resolve_eq_ok hr
    obtain ⟨g, -, he, rfl, -⟩ := h.of_live hl
    let evicted : Entry := { e with metadata := { e.metadata with
      attributes := e.metadata.attributes.evict.1
      evictionEpoch := e.metadata.evictionEpoch + 1 } }.publish
    refine ⟨⟨fun j => ?_, rfl, rfl⟩, rfl, fun ho j e' he' => ?_, fun _ _ h => h⟩
    · change ((s.entries.insert e.metadata.id evicted).get? j).map Entry.outline = _
      rw [Table.get?_insert]
      split
      · next hj =>
        rw [hj, he]
        rfl
      · rfl
    · change (s.entries.insert e.metadata.id evicted).get? j = some e' at he'
      rw [Table.get?_insert] at he'
      split at he'
      · obtain rfl := Option.some.inj he'
        exact ⟨rfl, Nat.zero_le _⟩
      · exact ho j e' he'

/-- So does setting the crash switch, if it does not trip it. -/
theorem modifySwitch (s : Engine) {f : CrashSwitch → CrashSwitch}
    (hf : ∀ w, (f w).crashed = w.crashed) : s.Rests (s.modifySwitch f) :=
  of_entries rfl rfl rfl rfl fun _ _ h =>
    ⟨h.framable, h.bytes, h.cut, fun hr => (hf _).trans (h.crashed hr)⟩

/-- So does a flush. -/
theorem flush (s : Engine) : s.Rests { s with log := s.log.flush.1 } :=
  of_entries rfl rfl rfl rfl fun _ _ h => h.flush

/-- So does a shutdown. -/
theorem shutdown (s : Engine) : s.Rests s.shutdown.1 := by
  cases hc : s.closed with
  | true =>
    simp only [Engine.shutdown, hc, ↓reduceIte]
    exact refl s
  | false =>
    rw [shutdown_fst s hc]
    have hclosed : s.Rests { s with closed := true } :=
      of_entries rfl rfl rfl rfl fun _ _ h => h
    exact (hclosed.trans (writeAllThrough _ (s.liveEntries.map Entry.id))).trans (flush _)

end Rests

/-- Stores that are alike have the same outlines and records. -/
theorem Alike.rests (h : s.Alike s') : s.Rests s' := by
  refine ⟨h.resembles, h.config, fun ho id e' he' => ?_, fun rs rest hl => h.log ▸ hl⟩
  rw [h.config]
  cases he : s.entries.get? id with
  | none =>
    rw [h.noEntry id he] at he'
    cases he'
  | some e =>
    obtain ⟨c, hc, halike⟩ := h.entry id e he
    obtain rfl := Option.some.inj (hc.symm.trans he')
    exact halike.inOrder _ (ho id e he)

/-- All that one move can do to the outlines and the journal of an engine, with the records that it
commits. -/
inductive Passes (s : Engine) : List Record → Engine → Prop where
  /-- The engine stays at rest. -/
  | rests {s' : Engine} (rests : s.Rests s') : Passes s [] s'
  /-- A record is proposed, but the journal fails to take it. -/
  | fails {s₁ s₂ s' : Engine} {action : Action} {record : Record} {e : SegmentError}
      (before : s.Rests s₁) (proposes : s₁.Proposes action record) (touched : s₁.Rests s₂)
      (failed : (s₂.log.append record).2 = .error e)
      (after : Rests { s₂ with log := (s₂.log.append record).1 } s') : Passes s [] s'
  /-- A record is proposed, taken and applied. -/
  | commits {s₁ s₂ s' : Engine} {action : Action} {record : Record} {n : Nat}
      (before : s.Rests s₁) (proposes : s₁.Proposes action record) (touched : s₁.Rests s₂)
      (taken : (s₂.log.append record).2 = .ok n)
      (after : (({ s₂ with log := (s₂.log.append record).1 } : Engine).enact action.callerName
        record).1.Rests s') : Passes s [record] s'

variable {new : List Record}

/-- A commit may be followed by what leaves outlines and records. -/
theorem Passes.trans_rests (h : s.Passes new s') (h' : s'.Rests s'') : s.Passes new s'' := by
  cases h with
  | rests rests => exact .rests (rests.trans h')
  | fails before proposes touched failed after =>
    exact .fails before proposes touched failed (after.trans h')
  | commits before proposes touched taken after =>
    exact .commits before proposes touched taken (after.trans h')

/-- Making a change passes with the record that it commits. -/
theorem execute_passes (s : Engine) (action : Action) :
    (∃ record answer, s.propose action = .commit record answer ∧
      (s.execute action).2.2 = .ok answer ∧ s.Passes [record] (s.execute action).1) ∨
    ((∀ answer, (s.execute action).2.2 = .ok answer → s.propose action = .idle answer) ∧
      s.Passes [] (s.execute action).1) := by
  have htouched := (Alike.touchConsulted s action).rests
  have hexecutes := s.executes action
  generalize (s.execute action).1 = s', (s.execute action).2.2 = result at hexecutes ⊢
  cases hexecutes with
  | refused proposed => exact Or.inr ⟨nofun, .rests htouched⟩
  | idles proposed =>
    refine Or.inr ⟨fun answer ha => ?_, .rests htouched⟩
    rw [proposed, Except.ok.inj ha]
  | @fails record answer log e proposed appended =>
    refine Or.inr ⟨nofun, .fails (.refl s) (proposes_iff.mpr ⟨answer, proposed⟩) htouched
      (congrArg Prod.snd appended) ?_⟩
    rw [appended]
    exact .refl _
  | @commits record answer log n proposed appended =>
    refine Or.inl ⟨record, answer, proposed, rfl, .commits (.refl s)
      (proposes_iff.mpr ⟨answer, proposed⟩) htouched (congrArg Prod.snd appended) ?_⟩
    rw [appended]
    exact .refl _

/-- A commit may come after what leaves outlines and records. -/
theorem Passes.rests_trans (h : s.Rests s') (h' : s'.Passes new s'') : s.Passes new s'' := by
  cases h' with
  | rests rests => exact .rests (h.trans rests)
  | fails before proposes touched failed after =>
    exact .fails (h.trans before) proposes touched failed after
  | commits before proposes touched taken after =>
    exact .commits (h.trans before) proposes touched taken after

/-- Whatever passes leaves in order what was in order. -/
theorem Passes.inOrder (h : s.Passes new s') (ho : s.InOrder) : s'.InOrder := by
  cases h with
  | rests rests => exact rests.inOrder ho
  | @fails _ s₂ _ _ record _ before proposes touched failed after =>
    have hfailed : InOrder { s₂ with log := (s₂.log.append record).1 } :=
      touched.inOrder (before.inOrder ho)
    exact after.inOrder hfailed
  | @commits _ s₂ _ action record _ before proposes touched taken after =>
    have htaken : InOrder { s₂ with log := (s₂.log.append record).1 } :=
      touched.inOrder (before.inOrder ho)
    exact after.inOrder (htaken.enact action.callerName record)

/-- Whatever passes keeps the configuration. -/
theorem Passes.config (h : s.Passes new s') : s'.config = s.config := by
  cases h with
  | rests rests => exact rests.config
  | fails before proposes touched failed after =>
    exact after.config.trans (touched.config.trans before.config)
  | commits before proposes touched taken after =>
    exact (after.config.trans (enact_config _ _ _)).trans (touched.config.trans before.config)

/-- A step of an operation passes with the record that it commits. -/
theorem Goes.passes {o : Operation} {phase : Phase} (h : Goes s o s' phase) :
    ∃ new, s.Passes new s' ∧ Commits s o phase new := by
  cases h with
  | waits alike => exact ⟨[], .rests alike.rests, .nothing fun _ _ _ hp => by cases hp⟩
  | queues held place wanted asked alike =>
    exact ⟨[], .rests alike.rests, .nothing fun _ _ _ hp => by cases hp⟩
  | closes closed alike => exact ⟨[], .rests alike.rests, .nothing fun _ _ _ hp => by cases hp⟩
  | answers result none fails alike => exact ⟨[], .rests alike.rests, .of_none none⟩
  | @executes s₁ _ action asked alike isOpen after =>
    rcases s₁.execute_passes action with ⟨record, answer, hp, hresult, hpass⟩ | ⟨hidle, hpass⟩
    · exact ⟨[record], (Passes.rests_trans alike.rests hpass).trans_rests after.rests,
        .record asked alike hp (by rw [hresult])⟩
    · refine ⟨[], (Passes.rests_trans alike.rests hpass).trans_rests after.rests,
        .nothing fun action' answer ha hp => ?_⟩
      obtain rfl := Option.some.inj (asked.symm.trans ha)
      exact ⟨s₁, alike, hidle answer (Phase.finished.inj hp)⟩
  | begins ids cache found readable =>
    exact ⟨[], .rests (Alike.touch s _ ids).rests, .nothing fun _ _ _ hp => by cases hp⟩
  | reads phase => exact ⟨[], .rests (.refl s), .nothing fun _ _ _ hp => by cases hp⟩
  | ends phase =>
    exact ⟨[], .rests (.finishLookup s _ _ _ _), .of_none (by rw [Operation.action?, phase])⟩
  | stays phase => exact ⟨[], .rests (.refl s), .of_none (by rw [Operation.action?, phase])⟩

end Engine

namespace Traffic

open Engine

/-- Every move but that of an operation leaves the store at rest. -/
theorem step_rests {t : Traffic} {a : Account} (h : t.engine.Outlines a) {m : Move}
    (hm : ∀ i, m ≠ .advance i) : t.engine.Rests (t.step m).engine := by
  cases m with
  | submit request timeout =>
    simp only [step]
    cases ha : t.engine.accept request timeout with
    | error e => exact .refl _
    | ok accepted =>
      obtain ⟨engine, o⟩ := accepted
      obtain ⟨-, -, -, pending, rfl⟩ := accept_eq_ok ha
      exact (Alike.withPending t.engine pending).rests
  | advance i => exact absurd rfl (hm i)
  | pause i => exact (t.pause_alike i).rests
  | abandon i error =>
    simp only [step]
    cases ho : t.operations[i]? with
    | none => exact .refl _
    | some o =>
      simp only
      split
      · exact .refl _
      · exact (Alike.abandon t.engine o error).rests
  | evict name => exact .evict h name
  | trim segment max => exact .trim _ segment max
  | writeThrough segment => exact .writeThrough _ segment
  | refuse refusing => exact .withStore _ _
  | tick clock => exact .of_entries rfl rfl rfl rfl fun _ _ h => h
  | crashAfter threshold =>
    exact .modifySwitch _ (f := fun w => { w with threshold := some threshold }) fun _ => rfl
  | failFlush fail =>
    exact .modifySwitch _ (f := fun w => { w with failFlush := fail }) fun _ => rfl
  | close reader => exact (Alike.closeReader _ reader).rests
  | shutdown => exact .shutdown _

/-- Every move passes with the record that it commits. -/
theorem step_passes {t : Traffic} {a : Account} (h : t.engine.Outlines a) (m : Move) :
    ∃ new, t.engine.Passes new (t.step m).engine ∧ t.Commits m new := by
  cases m with
  | advance i =>
    cases ho : t.operations[i]? with
    | none =>
      refine ⟨[], ?_, by simp only [Commits, ho]⟩
      simp only [step, ho]
      exact .rests (.refl _)
    | some o =>
      obtain ⟨new, hpass, hcommits⟩ := (t.engine.advancePhase_goes o).passes
      have hsettled := Alike.settle (t.engine.advancePhase o).1
        { o with phase := (t.engine.advancePhase o).2.1 }
      refine ⟨new, ?_, ?_⟩
      · simp only [step, ho]
        exact hpass.trans_rests hsettled.rests
      · simp only [Commits, ho]
        exact hcommits
  | _ => exact ⟨[], .rests (step_rests h fun i hi => by cases hi), rfl⟩

end Traffic

end Segments
