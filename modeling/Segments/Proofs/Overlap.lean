import Mathlib.Data.List.Infix
import Segments.Proofs.Deposits
import Segments.Proofs.History
import Segments.Proofs.Observation

/-!
# Look-ups among changes

A look-up answers what memory knows as of the moment at which it begins, and the rest from the
attribute store, which it reads later. Other operations go on in between, so the answers are of two
moments; `Gathering` says at each point of a look-up of which. What is stored of a segment is always
what was committed at one moment, so all that memory did not know is of one moment. But a segment
that ends before the store is read leaves nothing there, and the look-up takes that for attributes
without a value.
-/

namespace Segments

namespace Engine

/-- The present value of an attribute of a segment by its number. -/
def attributeOf (s : Engine) (id : SegmentId) (x : AttributeId) : AttributeValue :=
  s.valueOf (s.entry id) x

/-- Whether a look-up that begins now answers an attribute from memory: a value is there, or the
attribute is a core one and would be nowhere else. -/
def recalls (s : Engine) (id : SegmentId) (x : AttributeId) : Bool :=
  x.isCore || ((s.entry id).metadata.attributes.resident? x).isSome

variable {s : Engine} {a : Account} {id : SegmentId}

instance : Decidable (s.Readable id) := inferInstanceAs (Decidable (_ ∨ _))

/-- The values of a segment that can be read are the committed ones. -/
theorem Agrees.attributeOf_eq (h : s.Agrees a) (hr : s.Readable id) :
    ∃ g, a.segments id = some g ∧
      (s.entry id).metadata.attributes.Coherent s.store id g.attributes ∧
      s.attributeOf id = g.attributes := by
  obtain ⟨g, hg, -, hown, hd, hc⟩ := h.of_readable hr
  have hm : g.state ≠ .merged := hd.ne_merged hr
  refine ⟨g, hg, hc.coherent hm, funext fun x => ?_⟩
  rw [attributeOf, valueOf, Entry.id, hown]
  exact (hc.coherent hm).value_eq x

theorem missing_ofTiers (s : Engine) (id : SegmentId) (ids : List AttributeId) :
    (AttributeLookup.ofTiers (s.entry id).metadata.attributes ids).missing =
      ids.filter fun x => !s.recalls id x := by
  refine List.filter_congr fun x _ => ?_
  rw [recalls, AttributeId.isExtended, Bool.not_or, Bool.and_comm, Option.not_isSome]

/-- Of what memory does not know the committed values are stored. -/
theorem Agrees.stored_missing (h : s.Agrees a) (hr : s.Readable id) {ids : List AttributeId}
    {x : AttributeId}
    (hx : x ∈ (AttributeLookup.ofTiers (s.entry id).metadata.attributes ids).missing) :
    s.store.value id x = s.attributeOf id x := by
  obtain ⟨g, -, hc, hvalue⟩ := h.attributeOf_eq hr
  have hlookup := AttributeLookup.lookup_missing hc ids x hx
  rw [AttributeStore.lookup_lookup, if_pos hx] at hlookup
  rw [hvalue]
  exact hlookup

/-- How a look-up begins: it fails, is answered from memory, or has to read the store. -/
theorem Agrees.beginLookup_cases (h : s.Agrees a) (name : String) (ids : List AttributeId)
    (cache : Bool) :
    (∃ err, (s.beginLookup name ids cache).2.1 = .finished (.error err)) ∨
    ∃ id l, s.names.get? name = some id ∧ s.Readable id ∧
      l = AttributeLookup.ofTiers (s.entry id).metadata.attributes ids ∧
      ((l.missing = [] ∧ (s.beginLookup name ids cache).2.1 =
        .finished (.ok (.attributes (l.answer [])))) ∨
      (s.beginLookup name ids cache).2.1 = .fetching id l cache) := by
  rw [beginLookup, requireOpen_eq]
  split
  · exact Or.inl ⟨.storeClosed, rfl⟩
  · cases hresolve : s.resolve name with
    | error err => exact Or.inl ⟨err, rfl⟩
    | ok e =>
      obtain ⟨g, hname, -, he, -⟩ := h.of_resolve hresolve
      cases hread : e.state.requireReadable e.name with
      | error err =>
        refine Or.inl ⟨err, ?_⟩
        simp only [Phase.ofCheck, hread]
      | ok u =>
        have hstate := SegmentState.requireReadable_eq_ok.mp hread
        refine Or.inr ⟨e.id, .ofTiers e.metadata.attributes ids, (h.names name).trans hname,
          (readable_of_entry he).mpr hstate, ?_, ?_⟩
        · exact congrArg (fun c => AttributeLookup.ofTiers c.metadata.attributes ids)
            (entry_eq he).symm
        · simp only [Phase.ofCheck, hread]
          split
          · next hmissing => exact Or.inl ⟨List.isEmpty_iff.mp hmissing, rfl⟩
          · exact Or.inr rfl

/-- How a look-up ends: what it missed is answered by what it has read, or by what is committed at
its end. -/
theorem Agrees.finishLookup_cases (h : s.Agrees a) {l : AttributeLookup}
    {values : AttributeValues} {e : Entry} (he : s.entries.get? id = some e)
    (hread : l.Read values e (a.segments id)) (cache : Bool) :
    ∃ current, (s.finishLookup id l cache values).2.1 =
        .finished (.ok (.attributes (l.answer current))) ∧
      (∀ x, x ∉ l.missing → current.lookup x = none) ∧
      (current = values ∨ s.Readable id ∧
        ∀ x ∈ l.missing, (current.lookup x).getD nullValue = s.attributeOf id x) := by
  by_cases hcache : cache = true ∧ (s.entry id).state = .active
  · obtain ⟨g, hg, hc, hvalue⟩ := h.attributeOf_eq (Or.inl hcache.2)
    rw [entry_eq he] at hc
    rw [hg] at hread
    have hlookup := hread.lookup_cacheFetched hc e.name s.config.maxCachedAttributes rfl
    refine ⟨_, ?_, hlookup.2, Or.inr ⟨Or.inl hcache.2, ?_⟩⟩
    · have hactive : cache = true ∧ e.state = .active := entry_eq he ▸ hcache
      rw [Engine.finishLookup, entry_eq he]
      simp only [hactive, and_self, ↓reduceIte]
    · rw [hvalue]
      exact hlookup.1
  · refine ⟨values, ?_, hread.only, Or.inl rfl⟩
    simp only [Engine.finishLookup, hcache, ↓reduceIte]

end Engine

namespace Traffic

/-- Whether an operation is about to read the attribute store. -/
def AboutToRead (t : Traffic) (i : Nat) : Prop :=
  ∃ o id l cache, t.operations[i]? = some o ∧ o.phase = .fetching id l cache

/-- Where an operation has the values from that it read in the attribute store, within a run in
which it began after some moves. -/
inductive Dated (t : Traffic) (i : Nat) (begun moves : List Move) (id : SegmentId)
    (ids : List AttributeId) (value : AttributeId → AttributeValue) : Prop where
  /-- All of them were committed at one moment. -/
  | committed {later : List Move} (since : begun <+: later) (within : later <+: moves)
      (readable : (t.run later).engine.Readable id)
      (values : ∀ x ∈ ids, value x = (t.run later).engine.attributeOf id x)
  /-- The segment had ended before the store was read. -/
  | erased {released : List Move} (since : begun <+: released) (within : released <+: moves)
      (ended : ¬(t.run released).engine.Readable id) (unread : (t.run released).AboutToRead i)
      (values : ∀ x ∈ ids, value x = nullValue)

/-- A segment can be found and read after some moves. -/
structure Begins (t : Traffic) (begun : List Move) (name : String) (id : SegmentId) : Prop where
  /-- The name stands for it. -/
  named : (t.run begun).engine.names.get? name = some id
  /-- It can be read. -/
  readable : (t.run begun).engine.Readable id

/-- How far a look-up has come in a run, and of which moments its values are. -/
inductive Gathering (t : Traffic) (i : Nat) (name : String) (ids : List AttributeId)
    (moves : List Move) : Phase → Prop where
  /-- It has not begun. -/
  | accepted : Gathering t i name ids moves .accepted
  /-- It has asked memory. -/
  | fetching {begun : List Move} {id : SegmentId} {l : AttributeLookup} {cache : Bool}
      (since : begun <+: moves) (begins : t.Begins begun name id)
      (lookup : l = .ofTiers ((t.run begun).engine.entry id).metadata.attributes ids)
      (dated : t.Dated i begun moves id l.missing fun x => (t.run moves).engine.store.value id x) :
      Gathering t i name ids moves (.fetching id l cache)
  /-- It has read the attribute store. -/
  | fetched {begun : List Move} {id : SegmentId} {l : AttributeLookup} {cache : Bool}
      {values : AttributeValues} (since : begun <+: moves) (begins : t.Begins begun name id)
      (lookup : l = .ofTiers ((t.run begun).engine.entry id).metadata.attributes ids)
      (dated : t.Dated i begun moves id l.missing fun x => (values.lookup x).getD nullValue) :
      Gathering t i name ids moves (.fetched id l cache values)
  /-- It has failed. -/
  | failed (e : SegmentError) : Gathering t i name ids moves (.finished (.error e))
  /-- It is answered. -/
  | answered {begun : List Move} {id : SegmentId} {value : AttributeId → AttributeValue}
      (since : begun <+: moves) (begins : t.Begins begun name id)
      (recalled : ∀ x ∈ ids, (t.run begun).engine.recalls id x = true →
        value x = (t.run begun).engine.attributeOf id x)
      (dated : t.Dated i begun moves id
        (ids.filter fun x => !(t.run begun).engine.recalls id x) value) :
      Gathering t i name ids moves
        (.finished (.ok (.attributes (ids.eraseDups.map fun x => (x, value x)))))

variable {t : Traffic} {i : Nat} {begun moves moves' : List Move} {id : SegmentId}
  {name : String} {ids : List AttributeId} {value value' : AttributeId → AttributeValue}
  {rs : List Record} {rest : Bytes} {found : SegmentId → AttributeId → AttributeValue}

namespace Dated

theorem mono (h : t.Dated i begun moves id ids value) (hm : moves <+: moves') :
    t.Dated i begun moves' id ids value := by
  cases h with
  | committed since within readable values =>
    exact .committed since (within.trans hm) readable values
  | erased since within ended unread values =>
    exact .erased since (within.trans hm) ended unread values

theorem congr (h : t.Dated i begun moves id ids value) (hv : ∀ x ∈ ids, value' x = value x) :
    t.Dated i begun moves id ids value' := by
  cases h with
  | committed since within readable values =>
    exact .committed since within readable fun x hx => (hv x hx).trans (values x hx)
  | erased since within ended unread values =>
    exact .erased since within ended unread fun x hx => (hv x hx).trans (values x hx)

end Dated

/-- A move leaves what is stored of a segment dated. -/
theorem Sound.dated_step (h : (t.run moves).Sound rs rest found) {m : Move} {e : Entry}
    (he : (t.run moves).engine.entries.get? id = some e) (since : begun <+: moves)
    (hids : ∀ x ∈ ids, x.isCore = false) (hunread : (t.run (moves ++ [m])).AboutToRead i)
    (hd : t.Dated i begun moves id ids fun x => (t.run moves).engine.store.value id x) :
    t.Dated i begun (moves ++ [m]) id ids
      fun x => (t.run (moves ++ [m])).engine.store.value id x := by
  have hsnoc : moves <+: moves ++ [m] := List.prefix_append moves [m]
  cases h.deposits m he with
  | keeps same =>
    refine (hd.mono hsnoc).congr fun x _ => ?_
    rw [run_snoc]
    exact same x
  | stores readable clear =>
    obtain ⟨new, rest', hstep⟩ := h.step m
    rw [← run_snoc] at readable clear
    refine .committed (since.trans hsnoc) (List.prefix_refl _) readable fun x hx => ?_
    have hsound := hstep.sound
    rw [← run_snoc] at hsound
    obtain ⟨g, -, hc, hvalue⟩ := hsound.engine.agrees.attributeOf_eq readable
    have hback := hc.backed x (hids x hx)
    rw [clear x] at hback
    rw [hvalue]
    exact hback
  | erases ended erased =>
    rw [← run_snoc] at ended erased
    exact .erased (since.trans hsnoc) (List.prefix_refl _) ended hunread fun x _ => erased x

/-- A look-up is answered by what memory knew and by what it has read. -/
theorem Sound.answered (h : t.Sound rs rest found) (since : begun <+: moves)
    (begins : t.Begins begun name id) {l : AttributeLookup}
    (lookup : l = .ofTiers ((t.run begun).engine.entry id).metadata.attributes ids)
    {values : AttributeValues} (hout : ∀ x, x ∉ l.missing → values.lookup x = none)
    (dated : t.Dated i begun moves id l.missing fun x => (values.lookup x).getD nullValue) :
    t.Gathering i name ids moves (.finished (.ok (.attributes (l.answer values)))) := by
  obtain ⟨rs', rest', hsound, -⟩ := h.run begun
  obtain ⟨g, -, hc, hvalue⟩ := hsound.engine.agrees.attributeOf_eq begins.readable
  subst lookup
  rw [AttributeLookup.answer_eq hc ids hout]
  rw [Engine.missing_ofTiers] at dated ⊢
  refine .answered since begins (fun x _ hr => ?_) (dated.congr fun x hx => if_pos hx)
  rw [hvalue]
  exact if_neg fun hx => by simp [hr] at hx

/-- The look-up itself goes on. -/
theorem Sound.gathering_advance (h : t.Sound rs rest found) {o : Operation} {cache : Bool}
    (ho : (t.run moves).operations[i]? = some o) (hrequest : o.request = .lookup name ids cache)
    (hg : t.Gathering i name ids moves o.phase) :
    t.Gathering i name ids (moves ++ [.advance i])
      ((t.run moves).engine.advance o).2.1.phase := by
  obtain ⟨rs', rest', hsound, -⟩ := h.run moves
  have hsnoc : moves <+: moves ++ [.advance i] := List.prefix_append moves [.advance i]
  have hvalid := hsound.valid o (List.mem_of_getElem? ho)
  have hnext : ((t.run moves).engine.advance o).2.1.phase =
    ((t.run moves).engine.advancePhase o).2.1 := rfl
  have hdue : ∀ id l cache, ((t.run moves).engine.advance o).2.1.phase = .fetching id l cache →
      (t.run (moves ++ [.advance i])).AboutToRead i := by
    intro id l cache hfetching
    obtain ⟨hi, -⟩ := List.getElem?_eq_some_iff.mp ho
    refine ⟨((t.run moves).engine.advance o).2.1, id, l, cache, ?_, hfetching⟩
    simp only [run_snoc, Traffic.step, ho]
    exact List.getElem?_set_self hi
  rw [hnext]
  generalize hphase : o.phase = phase at hg
  cases hg with
  | accepted =>
    simp only [Engine.advancePhase, hphase, Engine.begin, hrequest]
    rcases hsound.engine.agrees.beginLookup_cases name ids cache with
      ⟨err, hfailed⟩ | ⟨id, l, hnamed, hreadable, hl, hresult⟩
    · rw [hfailed]
      exact .failed err
    · have hbegins : t.Begins moves name id := ⟨hnamed, hreadable⟩
      have hnow : t.Dated i moves moves id l.missing
          fun x => (t.run moves).engine.store.value id x := by
        refine .committed (List.prefix_refl _) (List.prefix_refl _) hreadable fun x hx => ?_
        rw [hl] at hx
        exact hsound.engine.agrees.stored_missing hreadable hx
      rcases hresult with ⟨hnil, hanswered⟩ | hfetching
      · rw [hanswered]
        refine h.answered hsnoc hbegins hl (fun _ _ => rfl) ((hnow.mono hsnoc).congr fun x hx => ?_)
        rw [hnil] at hx
        exact absurd hx List.not_mem_nil
      · obtain ⟨g, -, he, -⟩ := hsound.engine.agrees.of_readable hreadable
        have hunread := hdue id l cache (by
          rw [hnext, Engine.advancePhase, hphase]
          simp only [Engine.begin, hrequest, hfetching])
        rw [hfetching]
        refine .fetching hsnoc hbegins hl
          (hsound.dated_step he (List.prefix_refl _) (fun x hx => ?_) hunread hnow)
        rw [hl] at hx
        exact (AttributeLookup.mem_missing_ofTiers.mp hx).2.2
  | fetching since begins lookup dated =>
    simp only [Engine.advancePhase, hphase]
    refine .fetched (since.trans hsnoc) begins lookup ((dated.mono hsnoc).congr fun x hx => ?_)
    rw [AttributeStore.lookup_lookup, if_pos hx]
    rfl
  | @fetched _ id l cache values since begins lookup dated =>
    simp only [Engine.advancePhase, hphase]
    rw [Operation.Valid, hphase] at hvalid
    obtain ⟨e, he, hread⟩ := hvalid
    obtain ⟨current, hanswered, hout, hcurrent⟩ :=
      hsound.engine.agrees.finishLookup_cases he hread cache
    rw [hanswered]
    refine h.answered (since.trans hsnoc) begins lookup hout ?_
    rcases hcurrent with rfl | ⟨hreadable, hvalues⟩
    · exact dated.mono hsnoc
    · exact .committed since hsnoc hreadable hvalues
  | failed e =>
    simp only [Engine.advancePhase, hphase]
    exact .failed e
  | answered since begins recalled dated =>
    simp only [Engine.advancePhase, hphase]
    exact .answered (since.trans hsnoc) begins recalled (dated.mono hsnoc)

/-- Another operation goes on, or something else happens. -/
theorem Sound.gathering_stay (h : (t.run moves).Sound rs rest found) {o : Operation} {m : Move}
    (ho : (t.run moves).operations[i]? = some o)
    (ho' : (t.run (moves ++ [m])).operations[i]? = some o)
    (hg : t.Gathering i name ids moves o.phase) :
    t.Gathering i name ids (moves ++ [m]) o.phase := by
  have hsnoc : moves <+: moves ++ [m] := List.prefix_append moves [m]
  have hvalid := h.valid o (List.mem_of_getElem? ho)
  generalize hphase : o.phase = phase at hg
  cases hg with
  | accepted => exact .accepted
  | @fetching _ id l cache since begins lookup dated =>
    rw [Operation.Valid, hphase] at hvalid
    obtain ⟨e, he, hpending⟩ := hvalid
    have hunread : (t.run (moves ++ [m])).AboutToRead i := ⟨o, id, l, cache, ho', hphase⟩
    exact .fetching (since.trans hsnoc) begins lookup
      (h.dated_step he since hpending.extended hunread dated)
  | fetched since begins lookup dated =>
    exact .fetched (since.trans hsnoc) begins lookup (dated.mono hsnoc)
  | failed e => exact .failed e
  | answered since begins recalled dated =>
    exact .answered (since.trans hsnoc) begins recalled (dated.mono hsnoc)

/-- A look-up comes to no turn. -/
theorem Gathering.comeToTurn {o : Operation} {cache : Bool}
    (hg : t.Gathering i name ids moves o.phase) (s : Engine)
    (hrequest : o.request = .lookup name ids cache) :
    ({ o with phase := (s.comeToTurn o).2 } : Operation) = o := by
  obtain ⟨request, barrier, registrations, phase⟩ := o
  obtain rfl : request = .lookup name ids cache := hrequest
  cases hg with
  | accepted =>
    simp only [Engine.comeToTurn, Request.action?]
    cases s.requireOpen <;> rfl
  | _ => rfl

/-- At every point of a look-up its values are of two moments, or memory's of one and no others. -/
theorem Sound.gathering (h : t.Sound rs rest found) {cache : Bool}
    (hw : t.waiting? i = some (.lookup name ids cache)) (moves : List Move) :
    ∃ o, (t.run moves).operations[i]? = some o ∧ o.request = .lookup name ids cache ∧
      t.Gathering i name ids moves o.phase := by
  induction moves using List.reverseRecOn with
  | nil =>
    obtain ⟨o, ho, hrequest, hphase⟩ := operation_of_waiting hw
    exact ⟨o, ho, hrequest, hphase ▸ .accepted⟩
  | append_singleton moves m ih =>
    obtain ⟨o, ho, hrequest, hg⟩ := ih
    obtain ⟨rs', rest', hsound, -⟩ := h.run moves
    have hstep := operations_step (t.run moves) m ho
    rw [← run_snoc] at hstep
    rcases hstep with hsame | ⟨rfl, hadvanced⟩ | ⟨rfl, hpaused⟩ | ⟨-, e, hfailed⟩
    · exact ⟨o, hsame, hrequest, hsound.gathering_stay ho hsame hg⟩
    · exact ⟨_, hadvanced, hrequest, h.gathering_advance ho hrequest hg⟩
    · rw [hg.comeToTurn _ hrequest] at hpaused
      exact ⟨o, hpaused, hrequest, hsound.gathering_stay ho hpaused hg⟩
    · exact ⟨_, hfailed, hrequest, .failed e⟩

/-- Where the values of an answered look-up are from. -/
theorem Sound.answers (h : t.Sound rs rest found) {cache : Bool}
    (hw : t.waiting? i = some (.lookup name ids cache)) {answers : AttributeValues}
    (hanswered : (t.run moves).result? i = some (.ok (.attributes answers))) :
    ∃ begun id value, begun <+: moves ∧ t.Begins begun name id ∧
      answers = ids.eraseDups.map (fun x => (x, value x)) ∧
      (∀ x ∈ ids, (t.run begun).engine.recalls id x = true →
        value x = (t.run begun).engine.attributeOf id x) ∧
      t.Dated i begun moves id
        (ids.filter fun x => !(t.run begun).engine.recalls id x) value := by
  obtain ⟨o, ho, -, hg⟩ := h.gathering hw moves
  rw [result?, ho, Option.bind_some] at hanswered
  rw [Phase.result?_eq_some.mp hanswered] at hg
  cases hg with
  | @answered begun id value since begins recalled dated =>
    exact ⟨begun, id, value, since, begins, rfl, recalled, dated⟩

/-- The attributes that a look-up answers without reading the store have the values that were
committed when it began. All others have the values that were committed at one later moment, at
which the segment could be read; or none of them has a value, and then the segment ended before the
look-up read the store. -/
theorem answers_along (config : Config) (logged : Bool) (clock : AttributeValue)
    (strides : List Stride) (moves : List Move) {i : Nat} {name : String}
    {ids : List AttributeId} {cache : Bool} {answers : AttributeValues}
    (hw : ((start config logged clock).along strides).waiting? i =
      some (.lookup name ids cache))
    (hanswered : (((start config logged clock).along strides).run moves).result? i =
      some (.ok (.attributes answers))) :
    let t := (start config logged clock).along strides
    ∃ begun id value, begun <+: moves ∧ t.Begins begun name id ∧
      answers = ids.eraseDups.map (fun x => (x, value x)) ∧
      (∀ x ∈ ids, (t.run begun).engine.recalls id x = true →
        value x = (t.run begun).engine.attributeOf id x) ∧
      t.Dated i begun moves id
        (ids.filter fun x => !(t.run begun).engine.recalls id x) value := by
  intro t
  obtain ⟨rs, rest, left, hstands, -⟩ := stands_along (stands_start config logged clock) strides
  exact hstands.sound.answers hw hanswered

/-- A look-up has yet to begin; what it asks for is not in memory. -/
def evicted : List Stride := [.moved (.submit (.create "a" [.replace ⟨0, 7⟩ 5]) 1),
  .moved (.advance 0), .moved (.evict "a"), .moved (.submit (.lookup "a" [⟨0, 7⟩] false) 1)]

/-- Between the phases of the look-up the segment is deleted. -/
def deletedMeanwhile : List Move := [.advance 1, .submit (.delete "a") 1, .advance 2, .advance 1,
  .advance 1]

/-- A look-up is answered by no value although the attribute had one until the segment was
deleted. -/
theorem answers_null_of_delete :
    let t := (start .standard false 0).along evicted
    t.waiting? 1 = some (.lookup "a" [⟨0, 7⟩] false) ∧
      (t.run deletedMeanwhile).result? 1 =
        some (.ok (.attributes [(⟨0, 7⟩, nullValue)])) ∧
      ∀ front, front <+: deletedMeanwhile → (t.run front).engine.Readable 1 →
        (t.run front).engine.attributeOf 1 ⟨0, 7⟩ = 5 := by
  intro t
  refine ⟨by decide +kernel, by decide +kernel, fun front hfront => ?_⟩
  have hall : ∀ front ∈ deletedMeanwhile.inits, (t.run front).engine.Readable 1 →
      (t.run front).engine.attributeOf 1 ⟨0, 7⟩ = 5 := by decide +kernel
  exact hall front ((List.mem_inits _ _).mpr hfront)

/-- Its value is that of a segment that has ended. -/
theorem answers_along_of_delete :
    let t := (start .standard false 0).along evicted
    ∃ begun id value, begun <+: deletedMeanwhile ∧ t.Begins begun "a" id ∧
      [(⟨0, 7⟩, nullValue)] = [⟨0, 7⟩].eraseDups.map (fun x => (x, value x)) ∧
      (∀ x ∈ [⟨0, 7⟩], (t.run begun).engine.recalls id x = true →
        value x = (t.run begun).engine.attributeOf id x) ∧
      t.Dated 1 begun deletedMeanwhile id
        ([⟨0, 7⟩].filter fun x => !(t.run begun).engine.recalls id x) value := by
  intro t
  have hw : t.waiting? 1 = some (.lookup "a" [⟨0, 7⟩] false) := by decide +kernel
  have hanswered : (t.run deletedMeanwhile).result? 1 =
      some (.ok (.attributes [(⟨0, 7⟩, nullValue)])) := by decide +kernel
  exact answers_along .standard false 0 evicted deletedMeanwhile hw hanswered

/-- A name stands for a segment that is active throughout a run. -/
def StaysActive (t : Traffic) (moves : List Move) (name : String) (id : SegmentId) : Prop :=
  ∀ front, front <+: moves → (t.run front).engine.names.get? name = some id ∧
    ((t.run front).engine.entry id).state = .active

/-- While a segment stays active, a look-up answers the attributes that it finds in memory as they
are when it begins, and all others as they are at one later moment. -/
theorem answers_of_staysActive (config : Config) (logged : Bool) (clock : AttributeValue)
    (strides : List Stride) (moves : List Move) {i : Nat} {name : String} {id : SegmentId}
    {ids : List AttributeId} {cache : Bool} {answers : AttributeValues}
    (hw : ((start config logged clock).along strides).waiting? i =
      some (.lookup name ids cache))
    (hactive : ((start config logged clock).along strides).StaysActive moves name id)
    (hanswered : (((start config logged clock).along strides).run moves).result? i =
      some (.ok (.attributes answers))) :
    let t := (start config logged clock).along strides
    ∃ begun later, begun <+: later ∧ later <+: moves ∧
      answers = ids.eraseDups.map fun x =>
        (x, if (t.run begun).engine.recalls id x then (t.run begun).engine.attributeOf id x
          else (t.run later).engine.attributeOf id x) := by
  intro t
  obtain ⟨rs, rest, left, hstands, -⟩ := stands_along (stands_start config logged clock) strides
  obtain ⟨begun, id', value, since, begins, rfl, recalled, dated⟩ :=
    hstands.sound.answers hw hanswered
  obtain rfl : id' = id :=
    Option.some.inj (begins.named.symm.trans (hactive begun since).1)
  cases dated with
  | @committed later after within readable values =>
    refine ⟨begun, later, after, within, List.map_congr_left fun x hx => Prod.ext rfl ?_⟩
    have hmem : x ∈ ids := List.mem_eraseDups.mp hx
    cases hr : (t.run begun).engine.recalls id' x with
    | true => exact recalled x hmem hr
    | false => exact values x (List.mem_filter.mpr ⟨hmem, congrArg not hr⟩)
  | @erased released after within ended unread values =>
    exact absurd (Or.inl (hactive released within).2) ended

/-- A look-up has yet to begin; one of the attributes that it asks for is in memory. -/
def partlyCached : List Stride := [
  .moved (.submit (.create "a" [.replace ⟨0, 7⟩ 1, .replace ⟨0, 8⟩ 1]) 1), .moved (.advance 0),
  .moved (.evict "a"), .moved (.submit (.lookup "a" [⟨0, 7⟩] true) 1), .moved (.advance 1),
  .moved (.advance 1), .moved (.advance 1),
  .moved (.submit (.lookup "a" [⟨0, 7⟩, ⟨0, 8⟩] true) 1)]

/-- Between the phases of the look-up both attributes are changed. -/
def updatedMeanwhile : List Move := [.advance 2,
  .submit (.update "a" [.replace ⟨0, 7⟩ 2, .replace ⟨0, 8⟩ 2]) 1, .advance 3, .advance 2,
  .advance 2]

theorem staysActive_updatedMeanwhile :
    ((start .standard false 0).along partlyCached).StaysActive updatedMeanwhile "a" 1 := by
  intro front hfront
  have hall : ∀ front ∈ updatedMeanwhile.inits,
      (((start .standard false 0).along partlyCached).run front).engine.names.get? "a" = some 1 ∧
      ((((start .standard false 0).along partlyCached).run front).engine.entry 1).state =
        .active := by decide +kernel
  exact hall front ((List.mem_inits _ _).mpr hfront)

/-- Half of an update is seen by a look-up that it overtakes: at no moment do both attributes have
the values that are answered. -/
theorem answers_torn_by_update :
    let t := (start .standard false 0).along partlyCached
    t.waiting? 2 = some (.lookup "a" [⟨0, 7⟩, ⟨0, 8⟩] true) ∧
      t.StaysActive updatedMeanwhile "a" 1 ∧
      (t.run updatedMeanwhile).result? 2 =
        some (.ok (.attributes [(⟨0, 7⟩, 1), (⟨0, 8⟩, 2)])) ∧
      ∀ front, front <+: updatedMeanwhile →
        [⟨0, 7⟩, ⟨0, 8⟩].map (fun x => (x, (t.run front).engine.attributeOf 1 x)) ≠
          [(⟨0, 7⟩, 1), (⟨0, 8⟩, 2)] := by
  intro t
  refine ⟨by decide +kernel, staysActive_updatedMeanwhile, by decide +kernel, fun front hf => ?_⟩
  have hall : ∀ front ∈ updatedMeanwhile.inits,
      [⟨0, 7⟩, ⟨0, 8⟩].map (fun x => (x, (t.run front).engine.attributeOf 1 x)) ≠
        [(⟨0, 7⟩, 1), (⟨0, 8⟩, 2)] := by decide +kernel
  exact hall front ((List.mem_inits _ _).mpr hf)

/-- What was in memory is of the beginning, and the other half of a later moment. -/
theorem answers_of_staysActive_of_update :
    let t := (start .standard false 0).along partlyCached
    ∃ begun later, begun <+: later ∧ later <+: updatedMeanwhile ∧
      [(⟨0, 7⟩, 1), (⟨0, 8⟩, 2)] = [⟨0, 7⟩, ⟨0, 8⟩].eraseDups.map fun x =>
        (x, if (t.run begun).engine.recalls 1 x then (t.run begun).engine.attributeOf 1 x
          else (t.run later).engine.attributeOf 1 x) := by
  intro t
  have hw : t.waiting? 2 = some (.lookup "a" [⟨0, 7⟩, ⟨0, 8⟩] true) := by decide +kernel
  have hanswered : (t.run updatedMeanwhile).result? 2 =
      some (.ok (.attributes [(⟨0, 7⟩, 1), (⟨0, 8⟩, 2)])) := by decide +kernel
  exact answers_of_staysActive .standard false 0 partlyCached updatedMeanwhile hw
    staysActive_updatedMeanwhile hanswered

end Traffic

end Segments
