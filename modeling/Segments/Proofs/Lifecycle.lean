import Segments.Proofs.Ending
import Segments.Proofs.Growth
import Segments.Proofs.History

/-!
# The life of a segment

Whatever happens to a store, its segments only grow older: from any moment to any later one a
segment goes through the stages of life in their order, and keeps what the stage that it was at
has settled. One that was merged away is of no more use to anybody, but has its name until it is
deleted.
-/

namespace Segments

/-- What is settled for an entry while it is there. -/
structure Entry.Settles (e e' : Entry) : Prop where
  /-- It keeps its name. -/
  name : e'.name = e.name
  /-- The length does not shrink. -/
  length : e.metadata.length ≤ e'.metadata.length
  /-- Unless the segment is active, the length is final. -/
  final : e.state ≠ .active → e'.metadata.length = e.metadata.length
  /-- The lowest readable offset does not sink. -/
  truncationOffset : e.metadata.truncationOffset ≤ e'.metadata.truncationOffset
  /-- A segment is merged into one other at most. -/
  mergedInto : e.metadata.mergedInto.isSome → e'.metadata.mergedInto = e.metadata.mergedInto

namespace SegmentAccount

variable {g g' : SegmentAccount}

theorem WellFormed.leads_deleted (h : g.WellFormed) : g.state.Leads .deleted := by
  rcases h.state with hs | hs | hs <;> rw [hs] <;> exact SegmentState.leads_of_canBecome rfl

theorem WellFormed.rank_of_ne_active (h : g.WellFormed) (hs : g.state ≠ .active) :
    SegmentState.active.rank < g.state.rank := by
  rcases h.state with hs' | hs' | hs'
  · exact absurd hs' hs
  · rw [hs']
    decide
  · rw [hs']
    decide

/-- Entries settle what the accounts of their segments do. -/
theorem Grows.settles (h : g.Grows g') (hw : g.WellFormed) {e e' : Entry} (hd : e.Depicts g)
    (hd' : e'.Depicts g') : e.Settles e' where
  name := hd'.name.trans (h.name.trans hd.name.symm)
  length := by
    rw [hd.length, hd'.length]
    exact h.length
  final hs := by
    rw [Entry.state, hd.state] at hs
    rw [hd.length, hd'.length]
    exact h.final (hw.rank_of_ne_active hs)
  truncationOffset := by
    rw [hd.truncationOffset, hd'.truncationOffset]
    exact h.truncationOffset
  mergedInto hm := by
    rw [hd.mergedInto] at hm
    rw [hd.mergedInto, hd'.mergedInto]
    exact h.mergedInto hm

end SegmentAccount

namespace Engine

/-- The stage of life of a segment whose number was given out; one that is not there was
deleted. -/
def stage (s : Engine) (id : SegmentId) : SegmentState :=
  match s.live? id with
  | some e => e.state
  | none => .deleted

/-- What becomes of a segment that was merged away. -/
structure Spent (s : Engine) (id : SegmentId) (name : String) : Prop where
  /-- An operation that needs the content, also one that has looked the segment up before, fails
  when it goes on, unless it does not have its turn yet and has to wait for it; the journal takes
  nothing from it. -/
  fails : ∀ o : Operation, o.Needs s id →
    ((∃ err, (s.advance o).2.1.phase = .finished (.error err)) ∨
      (s.advance o).2.1.phase.AwaitsTurn (s.advance o).1 id) ∧ (s.advance o).1.log = s.log
  /-- A read or look-up that begins fails at once. -/
  reads : ∀ o : Operation, o.Needs s id → o.phase = .accepted → o.request.changes = false →
    ∃ err, (s.advance o).2.1.phase = .finished (.error err)
  /-- Until the segment is deleted its name stands for it, and no other gets the name. -/
  taken : s.stage id ≠ .deleted → s.names.get? name = some id ∧
    ∀ o : Operation, o.phase = .accepted → ∀ updates, o.request = .create name updates →
      ∃ err, (s.advance o).2.1.phase = .finished (.error err)

variable {s s' : Engine} {rs new : List Record} {rest rest' : Bytes} {id : SegmentId}
  {e e' : Entry}

theorem stage_of_live (h : s.live? id = some e) : s.stage id = e.state := by
  rw [stage, h]

theorem live_of_stage (h : s.stage id ≠ .deleted) : ∃ e, s.live? id = some e := by
  unfold stage at h
  split at h
  · next e he => exact ⟨e, he⟩
  · exact absurd rfl h

theorem stage_of_readable (h : (s.entry id).state = .active ∨ (s.entry id).state = .sealed) :
    s.stage id = (s.entry id).state := by
  unfold Engine.entry at h ⊢
  unfold stage live?
  cases he : s.entries.get? id with
  | none =>
    rw [he] at h
    rcases h with hs | hs <;> cases hs
  | some e =>
    rw [he, Option.getD_some] at h
    have hlive : e.state ≠ .deleted := by
      rcases h with hs | hs <;> rw [hs] <;> decide
    simp only [hlive, ↓reduceIte, Option.getD_some]

/-- A segment past the stages at which it can be read cannot be read. -/
theorem unreadable_of_stage (h : SegmentState.sealed.rank < (s.stage id).rank) :
    s.Unreadable id where
  active hs := by
    rw [stage_of_readable (Or.inl hs), hs] at h
    exact absurd h (by decide)
  sealed hs := by
    rw [stage_of_readable (Or.inr hs), hs] at h
    exact absurd h (Nat.lt_irrefl _)

/-- The account says the stage of a segment. -/
theorem Outlines.stage_eq {a : Account} (h : s.Outlines a) (hw : a.WellFormed) (id : SegmentId) :
    s.stage id = ((a.segments id).map SegmentAccount.state).getD .deleted := by
  cases hg : a.segments id with
  | some g =>
    obtain ⟨e, hl, -, -, hd⟩ := h.live hw hg
    rw [stage_of_live hl, Entry.state, hd.state]
    rfl
  | none =>
    unfold stage
    split
    · next e he =>
      obtain ⟨g, hg', -⟩ := h.of_live he
      cases hg.symm.trans hg'
    · rfl

namespace Traced

/-- From one moment to a later one a segment goes through the stages of life. -/
theorem leads (h : s.Traced rs rest) (h' : s'.Traced (rs ++ new) rest') (hid : id < s.nextId) :
    (s.stage id).Leads (s'.stage id) := by
  rw [h.outlines.stage_eq h.wellFormed, h'.outlines.stage_eq h'.wellFormed]
  cases hg' : (Account.after (rs ++ new)).segments id with
  | none =>
    cases hg : (Account.after rs).segments id with
    | none => exact .refl _
    | some g => exact (h.wellFormed.segment id g hg).leads_deleted
  | some g' =>
    rcases (Account.grows_after h'.admitted).segment id g' hg' with ⟨g, hg, hgrows⟩ | hle
    · rw [hg]
      exact hgrows.state
    · rw [h.outlines.nextId] at hid
      exact absurd hid (Nat.not_lt.mpr hle)

/-- From one moment to a later one a segment that is there settles what its stage does. -/
theorem settles (h : s.Traced rs rest) (h' : s'.Traced (rs ++ new) rest')
    (he : s.live? id = some e) (he' : s'.live? id = some e') : e.Settles e' := by
  obtain ⟨g, hg, -, -, hd⟩ := h.outlines.of_live he
  obtain ⟨g', hg', -, -, hd'⟩ := h'.outlines.of_live he'
  have hgrows := (Account.grows_after h'.admitted).of_segments h.wellFormed hg hg'
  exact hgrows.settles (h.wellFormed.segment id g hg) hd hd'

/-- A segment that was merged away cannot be read ever after. -/
theorem unreadable (h : s.Traced rs rest) (h' : s'.Traced (rs ++ new) rest')
    (he : s.live? id = some e) (hm : e.state = .merged) : s'.Unreadable id := by
  obtain ⟨g, hg, -⟩ := h.outlines.of_live he
  have hid : id < s.nextId := by
    rw [h.outlines.nextId]
    exact h.wellFormed.numbered id g hg
  have hleads := h.leads h' hid
  rw [stage_of_live he, hm] at hleads
  exact unreadable_of_stage (Nat.lt_of_lt_of_le (by decide) hleads.rank_le)

/-- A segment that was merged away is spent ever after. -/
theorem spent (h : s.Traced rs rest) (h' : s'.Traced (rs ++ new) rest')
    (he : s.live? id = some e) (hm : e.state = .merged) : s'.Spent id e.name := by
  have hend := h.unreadable h' he hm
  refine ⟨fun o ho => h'.outlines.advance_of_needs hend ho, fun o ho hphase hq => ?_,
    fun hs => ?_⟩
  · -- the name stands for this segment, so what begins finds it merged away or deleted
    simp only [Operation.Needs, hphase] at ho
    obtain ⟨name, hname, hn⟩ := ho
    rw [phase_advance_of_accepted hphase]
    exact (h'.outlines.begin_fails hend hn o.barrier hq hname).phase
  · obtain ⟨e', he'⟩ := live_of_stage hs
    obtain ⟨g', hg', -, -, hd'⟩ := h'.outlines.of_live he'
    have hname : g'.name = e.name := hd'.name.symm.trans (h.settles h' he he').name
    have htaken : s'.names.get? e.name = some id := by
      rw [h'.outlines.names, ← hname]
      exact h'.wellFormed.named id g' hg'
    refine ⟨htaken, fun o hphase updates hrequest => ?_⟩
    rw [phase_advance_of_accepted hphase, hrequest]
    have hrefuse : s'.propose (.create e.name updates) = .refuse (.segmentExists e.name) := by
      simp [propose, proposeBy, proposeCreate, Table.contains, htaken]
    exact (Fails.ofCheck fun _ _ => .conclude ⟨_, hrefuse⟩ :
      s'.Fails (s'.begin o.barrier (.create e.name updates))).phase

end Traced

/-- While a segment is sealed its attribute values stay what they are. -/
theorem Sound.valueOf_eq {found found' : SegmentId → AttributeId → AttributeValue}
    (h : s.Sound rs rest found) (h' : s'.Sound (rs ++ new) rest' found')
    (hgrows : (Account.after rs found).Grows (.after (rs ++ new) found'))
    (he : s.live? id = some e) (he' : s'.live? id = some e') (hs : e.state = .sealed)
    (hs' : e'.state = .sealed) (x : AttributeId) : s'.valueOf e' x = s.valueOf e x := by
  obtain ⟨g, hg, -, rfl, hd, hc⟩ := h.agrees.of_live he
  obtain ⟨g', hg', -, hown, hd', hc'⟩ := h'.agrees.of_live he'
  have hsealed : g.state = .sealed := hd.state.symm.trans hs
  have hsealed' : g'.state = .sealed := hd'.state.symm.trans hs'
  have hgrown := hgrows.of_segments h.wellFormed hg hg'
  have hvalue := (hc.coherent (by rw [hsealed]; decide)).value_eq x
  have hvalue' := (hc'.coherent (by rw [hsealed']; decide)).value_eq x
  calc s'.valueOf e' x
      = e'.metadata.attributes.value s'.store e'.metadata.id x := rfl
    _ = g'.attributes x := by rw [hown, hvalue']
    _ = g.attributes x := by rw [hgrown.attributes hsealed hsealed']
    _ = s.valueOf e x := hvalue.symm

end Engine

/-! ## Operations that have looked a segment up -/

/-- An operation stands in line with a change that needs the content of a segment. -/
def Phase.InLineFor (phase : Phase) (id : SegmentId) : Prop :=
  ∃ action held place wanted, phase = .inLine action held place wanted ∧ id ∈ action.needs

/-- An operation that has places in line stands there with the change that it is about to make. -/
theorem Operation.inLineFor_of_action? {s : Engine} {o : Operation} {action : Action}
    {id : SegmentId} (h : o.action? s = some action) (hplaces : o.phase.places ≠ [])
    (hid : id ∈ action.needs) : o.phase.InLineFor id := by
  cases hphase : o.phase with
  | inLine action' held place wanted =>
    rw [action?, hphase, Option.some.injEq] at h
    exact ⟨action', held, place, wanted, rfl, h ▸ hid⟩
  | _ =>
    rw [hphase] at hplaces
    exact absurd rfl hplaces

namespace Traffic

open Engine

variable {t : Traffic} {a : Account} {i : Nat} {o : Operation} {id : SegmentId}

/-- An operation in line for a segment that cannot be read stays in line or fails. -/
theorem inLineFor_stride (h : t.engine.Outlines a) (hend : t.engine.Unreadable id)
    (ho : t.operations[i]? = some o) (hline : o.phase.InLineFor id) {x : Stride}
    (hx : x.staysOpen = true) : ∃ o', (t.stride x).operations[i]? = some o' ∧
      (o'.phase.InLineFor id ∨ ∃ err, o'.phase = .finished (.error err)) := by
  obtain ⟨action, held, place, wanted, hphase, hid⟩ := hline
  cases x with
  | reopened config left clock => cases hx
  | moved m =>
    rcases operations_step t m ho with hsame | ⟨-, hadvanced⟩ | ⟨-, hpaused⟩ | ⟨-, err, hfailed⟩
    · exact ⟨o, hsame, Or.inl ⟨action, held, place, wanted, hphase, hid⟩⟩
    · refine ⟨_, hadvanced, ?_⟩
      have hneeds : o.Needs t.engine id := by
        rw [Operation.Needs, hphase]
        exact hid
      rcases (h.advance_of_needs hend hneeds).1 with herr | ⟨_, _, _, _, hwaits, hid', -⟩
      · exact Or.inr herr
      · exact Or.inl ⟨_, _, _, _, hwaits, hid'⟩
    · refine ⟨_, hpaused, Or.inl ?_⟩
      rcases t.engine.comeToTurn_cases o with hsame | ⟨_, _, _, _, hline, hbefore⟩
      · exact ⟨action, held, place, wanted, hsame.trans hphase, hid⟩
      · rcases hbefore with ⟨haccepted, -⟩ | ⟨_, _, hbefore⟩
        · rw [hphase] at haccepted
          cases haccepted
        · rw [hphase] at hbefore
          obtain ⟨rfl, -⟩ := Phase.inLine.inj hbefore
          exact ⟨action, _, _, _, hline, hid⟩
    · exact ⟨_, hfailed, Or.inr ⟨err, rfl⟩⟩

/-- An operation that is in line for a segment that was merged away never succeeds. -/
theorem result?_of_inLineFor {rs : List Record} {rest : Bytes} (h : t.engine.Traced rs rest)
    {e : Entry} (he : t.engine.live? id = some e) (hm : e.state = .merged)
    (ho : t.operations[i]? = some o) (hline : o.phase.InLineFor id) {strides : List Stride}
    (hopen : ∀ x ∈ strides, x.staysOpen = true) (answer : Answer) :
    (t.along strides).result? i ≠ some (.ok answer) := by
  have hlater : ∃ o', (t.along strides).operations[i]? = some o' ∧
      (o'.phase.InLineFor id ∨ ∃ err, o'.phase = .finished (.error err)) := by
    induction strides using List.reverseRecOn with
    | nil => exact ⟨o, ho, Or.inl hline⟩
    | append_singleton strides x ih =>
      obtain ⟨o₁, ho₁, hcase⟩ := ih fun y hy => hopen y (List.mem_append_left _ hy)
      have hx := hopen x (List.mem_append_right _ (List.mem_singleton_self x))
      obtain ⟨new, rest', htraced⟩ := traced_along h strides
      rw [along_snoc]
      rcases hcase with hline₁ | ⟨err, hfailed⟩
      · exact inLineFor_stride htraced.outlines (h.unreadable htraced he hm) ho₁ hline₁ hx
      · obtain ⟨o₂, ho₂, hresult⟩ := Option.bind_eq_some_iff.mp (result?_stride
          (show (t.along strides).result? i = some (.error err) by
            rw [result?, ho₁, Option.bind_some, hfailed]; rfl) hx)
        exact ⟨o₂, ho₂, Or.inr ⟨err, Phase.result?_eq_some.mp hresult⟩⟩
  obtain ⟨o', ho', hline' | ⟨err, hfailed⟩⟩ := hlater
  · obtain ⟨_, _, _, _, hphase, -⟩ := hline'
    simp [result?, ho', hphase, Phase.result?]
  · simp [result?, ho', hfailed, Phase.result?]

/-- From any moment of a history to any later one every segment goes through the stages of life, and
what its stage has settled stays, the attribute values of a sealed one included if reopenings find
again what was stored of attributes that the journal does not name. A segment that was merged away
is spent, and an operation that has looked it up before and stands in line for it never succeeds. -/
theorem lifecycle_along (config : Config) (logged : Bool) (clock : AttributeValue)
    (before later : List Stride) (id : SegmentId) :
    let t := start config logged clock
    let s := (t.along before).engine
    let s' := (t.along (before ++ later)).engine
    (id < s.nextId → (s.stage id).Leads (s'.stage id)) ∧
      (∀ e e', s.live? id = some e → s'.live? id = some e' →
        e.Settles e' ∧
        (e.state = .sealed → e'.state = .sealed → (t.along before).Faithful later →
          ∀ x, s'.valueOf e' x = s.valueOf e x)) ∧
      ∀ e, s.live? id = some e → e.state = .merged → s'.Spent id e.name ∧
        ∀ i o, (t.along before).operations[i]? = some o → o.phase.InLineFor id →
          (∀ x ∈ later, x.staysOpen = true) →
          ∀ answer, (t.along (before ++ later)).result? i ≠ some (.ok answer) := by
  intro t s s'
  obtain ⟨rs, rest, htraced⟩ := traced_along (traced_start config logged clock) before
  obtain ⟨new, rest', htraced'⟩ := traced_along htraced later
  rw [← along_append] at htraced'
  refine ⟨htraced.leads htraced', fun e e' he he' => ⟨htraced.settles htraced' he he',
    fun hs hs' hf x => ?_⟩, fun e he hm => ⟨htraced.spent htraced' he hm,
    fun i o ho hline hopen answer => ?_⟩⟩
  · obtain ⟨rs₁, rest₁, left, hstands, -⟩ := stands_along (stands_start config logged clock) before
    obtain ⟨new₁, rest₁', left', hstands', hgrows⟩ := stands_along hstands later
    rw [← along_append] at hstands'
    exact hstands.sound.engine.valueOf_eq hstands'.sound.engine (hgrows hf) he he' hs hs' x
  · rw [along_append]
    exact result?_of_inLineFor htraced he hm ho hline hopen answer

/-- A segment that was sealed is merged into another, after an append to it has come to stand in
line behind the merge. -/
def merging : List Stride := [.moved (.submit (.create "a" []) 1), .moved (.advance 0),
  .moved (.submit (.create "b" []) 1), .moved (.advance 1), .moved (.submit (.sealing "b") 1),
  .moved (.advance 2), .moved (.submit (.merge "a" "b") 1), .moved (.pause 3), .moved (.pause 3),
  .moved (.submit (.appendAt "b" 0 [7] []) 1), .moved (.pause 4), .moved (.advance 3)]

/-- A segment with an attribute is sealed, and evicted afterwards. -/
def sealedAndEvicted : List Move := [.submit (.create "a" [.replace ⟨0, 7⟩ 5]) 1, .advance 0,
  .submit (.sealing "a") 1, .advance 1, .evict "a"]

/-- The store is opened again without anything of its attribute store. -/
theorem faithful_sealedAndEvicted :
    ((start .standard false 0).along (sealedAndEvicted.map .moved)).Faithful
      [.reopened .standard (.index .empty) 0] := by
  rw [along_moved]
  exact ⟨finds_run .standard .standard false 0 0 sealedAndEvicted
    (.contents rfl nofun), trivial⟩

/-- The segment is sealed before and after. -/
theorem stage_sealedAndEvicted :
    ((((start .standard false 0).along (sealedAndEvicted.map .moved)).engine.live? 1).map
      Entry.state = some .sealed) ∧
    ((((start .standard false 0).along (sealedAndEvicted.map .moved ++
      [.reopened .standard (.index .empty) 0])).engine.live? 1).map Entry.state = some .sealed) := by
  decide +kernel

/-- After the merge and an eviction the source has its name and cannot be read, and the append does
not succeed. A segment that is sealed when the store is opened again has the attribute that it
had. -/
theorem lifecycle_along_of_merge :
    let t := (start .standard false 0).along (merging ++ [.moved (.evict "a"), .moved (.advance 4)])
    t.engine.names.get? "b" = some 2 ∧
      (∃ err, (t.engine.advance ⟨.read "b" 0 1, 0, [], .accepted⟩).2.1.phase =
        .finished (.error err)) ∧
      (∀ answer, t.result? 4 ≠ some (.ok answer)) ∧ t.result? 4 ≠ none ∧
    let u := (start .standard false 0).along (sealedAndEvicted.map .moved)
    let u' := (start .standard false 0).along
      (sealedAndEvicted.map .moved ++ [.reopened .standard (.index .empty) 0])
    ∃ e e', u.engine.live? 1 = some e ∧ u'.engine.live? 1 = some e' ∧
      ∀ x, u'.engine.valueOf e' x = u.engine.valueOf e x := by
  intro t
  have hstage : (((start .standard false 0).along merging).engine.live? 2).map
      (fun e => (e.state, e.name)) = some (.merged, "b") := by decide +kernel
  have hline : (((start .standard false 0).along merging).operations[4]?).map
      (fun o => (o.action? ((start .standard false 0).along merging).engine, o.phase.places)) =
        some (some (.append 2 [7] [] (some 0)), [⟨2, 3⟩]) := by decide +kernel
  have hlater : t.engine.stage 2 ≠ .deleted := by decide +kernel
  obtain ⟨e, he, hfields⟩ := Option.map_eq_some_iff.mp hstage
  obtain ⟨hmerged, hname⟩ := Prod.mk.inj hfields
  obtain ⟨o, ho, hphase⟩ := Option.map_eq_some_iff.mp hline
  obtain ⟨haction, hplaces⟩ := Prod.mk.inj hphase
  have hinLine : o.phase.InLineFor 2 := Operation.inLineFor_of_action? haction
    (by rw [hplaces]; exact List.cons_ne_nil _ _) List.mem_cons_self
  have hmerging := (lifecycle_along .standard false 0 merging
    [.moved (.evict "a"), .moved (.advance 4)] 2).2.2 e he hmerged
  have hspent : t.engine.Spent 2 e.name := hmerging.1
  rw [hname] at hspent
  have hnamed := (hspent.taken hlater).1
  refine ⟨hnamed, hspent.reads _ ⟨"b", List.mem_cons_self, hnamed⟩ rfl rfl,
    hmerging.2 4 o ho hinLine (by simp [Stride.staysOpen]), by decide +kernel, ?_⟩
  intro u u'
  obtain ⟨e₁, he₁, hs₁⟩ := Option.map_eq_some_iff.mp stage_sealedAndEvicted.1
  obtain ⟨e₂, he₂, hs₂⟩ := Option.map_eq_some_iff.mp stage_sealedAndEvicted.2
  exact ⟨e₁, e₂, he₁, he₂, ((lifecycle_along .standard false 0 (sealedAndEvicted.map .moved)
    [.reopened .standard (.index .empty) 0] 1).2.1 e₁ e₂ he₁ he₂).2 hs₁ hs₂
    faithful_sealedAndEvicted⟩

end Traffic

end Segments
