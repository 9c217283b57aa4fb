import Segments.Proofs.Looks
import Segments.Proofs.Renewal

/-!
# What a caller who is alone gets to see

A segment that can be read is described, read to its end and asked for its attributes. Each of these
gives what the account of the journal says, however large the chunks of a read are and wherever the
attribute values are.
-/

namespace Segments

/-! ## Reading to the end -/

namespace Reader

/-- A read is within the bytes of an entry whose readers nothing disturbs. -/
structure Covers (r : Reader) (s : Engine) (e : Entry) : Prop where
  /-- The entry is that of the segment. -/
  entry : s.entries.get? r.segment = some e
  /-- Nothing stops the read, now or farther on. -/
  unhindered : ∀ position, r.position ≤ position →
    ({ r with position } : Reader).obstacle? s.closed e.published = none
  /-- The published tail is the end of the bytes. -/
  published : e.published.length = e.data.length
  /-- All that is left is wanted. -/
  rest : r.position + r.remaining = e.data.length
  /-- While some is left the read has not ended. -/
  going : r.done = true → r.remaining = 0

variable {r : Reader} {s : Engine} {e : Entry}

/-- While bytes are left a look gives some of them, and the read covers the others. -/
theorem Covers.next (h : r.Covers s e) (hleft : r.remaining ≠ 0) (dropped : Bool) :
    ∃ count, 0 < count ∧ count ≤ r.remaining ∧
      r.next s dropped = (r.advance count, .chunk ((e.data.drop r.position).take count), []) ∧
      (r.advance count).Covers s e := by
  have hrest := h.rest
  have hgoing : r.done = false := Bool.eq_false_iff.mpr fun hd => hleft (h.going hd)
  have hpublished := h.published
  let wanted := r.ready e s.config.readChunkSize
  have hready : wanted = min (min (e.published.length - r.position) r.remaining)
    (max s.config.readChunkSize 1) := rfl
  have hpositive : 0 < wanted := by omega
  have hwithin : wanted ≤ r.remaining := by omega
  have hlength : ((e.data.drop r.position).take wanted).length = wanted := by
    rw [List.length_take, List.length_drop]
    omega
  have havailable : r.available e s.config.readChunkSize =
      .ok ((e.data.drop r.position).take wanted) :=
    available_eq (Nat.le_of_eq hpublished) s.config.readChunkSize
  refine ⟨wanted, hpositive, hwithin, ?_, h.entry, fun position hposition => ?_, h.published, ?_,
    fun hdone => ?_⟩
  · have hunhindered : r.obstacle? s.closed e.published = none := h.unhindered _ (Nat.le_refl _)
    have hsome : (e.data.drop r.position).take wanted ≠ [] := by
      intro hnil
      rw [hnil] at hlength
      exact Nat.ne_of_lt hpositive hlength
    rw [Reader.next, hgoing, if_neg Bool.false_ne_true, if_neg hleft, h.entry]
    simp only [Option.getD_some, hunhindered, havailable, hlength]
  · exact h.unhindered position (Nat.le_trans (Nat.le_add_right _ _) hposition)
  · simp only [Reader.advance]
    omega
  · have hall : r.remaining ≤ wanted := of_decide_eq_true hdone
    simp only [Reader.advance]
    omega

/-- A read that covers the rest delivers it, in whatever chunks. -/
theorem Covers.drain (h : r.Covers s e) (dropped : Bool) {fuel : Nat} (hfuel : r.remaining < fuel)
    (chunks : List Bytes) : (Reader.drain s dropped fuel r chunks).2.1 =
      .chunk (chunks.reverse.flatten ++ e.data.drop r.position) := by
  induction fuel generalizing r chunks with
  | zero => exact absurd hfuel (Nat.not_lt_zero _)
  | succ fuel ih =>
    rw [Reader.drain]
    by_cases hleft : r.remaining = 0
    · have hend : e.data.drop r.position = [] := by
        have hrest := h.rest
        rw [List.drop_eq_nil_iff]
        omega
      have hended : (r.next s dropped).2.1 = .ended := by
        rw [Reader.next, if_pos hleft]
        split
        · rfl
        · rfl
      generalize r.next s dropped = looked at hended
      obtain ⟨r', poll, events⟩ := looked
      obtain rfl : poll = .ended := hended
      rw [hend, List.append_nil]
    · obtain ⟨count, hpositive, hwithin, hnext, hcovers⟩ := h.next hleft dropped
      rw [hnext]
      have hfewer : (r.advance count).remaining < fuel := by
        simp only [Reader.advance]
        omega
      simp only [ih hcovers hfewer]
      rw [List.reverse_cons, List.flatten_append, List.flatten_singleton, List.append_assoc]
      change Poll.chunk (_ ++ ((e.data.drop r.position).take count ++
        e.data.drop (r.position + count))) = _
      rw [← List.drop_drop, List.take_append_drop]

end Reader

/-! ## Asking about one segment -/

namespace Scheduler

/-- A store that rests keeps a segment that can be read under a valid name. -/
structure Keeps (s : Scheduler) (rs : List Record) (name : String) (id : SegmentId)
    (g : SegmentAccount) : Prop where
  /-- The store rests. -/
  rested : s.Rested rs
  /-- The name is valid. -/
  valid : SegmentName.validate name s.engine.config.maxNameLength = .ok ()
  /-- It stands for the segment. -/
  named : (Account.after rs).names name = some id
  /-- The segment is as the account says. -/
  segment : (Account.after rs).segments id = some g
  /-- It can be read. -/
  readable : g.state = .active ∨ g.state = .sealed

variable {s : Scheduler} {rs : List Record} {name : String} {id : SegmentId} {g : SegmentAccount}
  {request : Request}

namespace Keeps

theorem of_rested (h : s.Keeps rs name id g) {s' : Scheduler} (hs : s'.Rested rs)
    (hconfig : s'.engine.config = s.engine.config) : s'.Keeps rs name id g :=
  ⟨hs, hconfig ▸ h.valid, h.named, h.segment, h.readable⟩

/-- A call that asks for no change leaves the segment as it is. -/
theorem query (h : s.Keeps rs name id g) (hq : request.changes = false) :
    (s.ask request).1.Keeps rs name id g := by
  obtain ⟨hrested, hconfig⟩ := h.rested.query hq
  exact h.of_rested hrested hconfig

theorem wellFormed (h : s.Keeps rs name id g) : g.WellFormed :=
  h.rested.sound.wellFormed.segment id g h.segment

/-- In an engine that is alike the name stands for an entry with what the account says, whose
readers know its tail. -/
theorem resolve (h : s.Keeps rs name id g) {engine : Engine} (halike : s.engine.Alike engine) :
    ∃ e, engine.resolve name = .ok e ∧ engine.entries.get? id = some e ∧ e.id = id ∧ e.Depicts g ∧
      e.metadata.attributes.Coherent engine.store id g.attributes ∧
      e.published = e.metadata.tail := by
  obtain ⟨e, g', hr, hg', he, hown, hd, hc⟩ :=
    (halike.agrees h.rested.sound.agrees).resolve_of_name h.rested.sound.wellFormed h.named
  obtain rfl := Option.some.inj (h.segment.symm.trans hg')
  have hm : g.state ≠ .merged := by
    rcases h.readable with hs | hs <;> rw [hs] <;> decide
  exact ⟨e, hr, he, hown, hd, hc.coherent hm,
    ((halike.rests.inOrder h.rested.inOrder) id e he).published⟩

/-- A segment that can be read was not merged away. -/
theorem mergedInto (h : s.Keeps rs name id g) : g.mergedInto.isSome = false := by
  rw [Bool.eq_false_iff, ne_eq, h.wellFormed.merged]
  rcases h.readable with hs | hs <;> rw [hs] <;> decide

theorem isSealed (h : s.Keeps rs name id g) : g.state.isSealed = decide (g.state = .sealed) := by
  rcases h.readable with hs | hs <;> rw [hs] <;> rfl

/-- The segment is described as the account says, and is there as before. -/
theorem describe (h : s.Keeps rs name id g) :
    ∃ p, (s.describe name).2 = .ok p ∧ (s.describe name).1.Keeps rs name id g ∧ p.name = name ∧
      p.length = g.length ∧ p.truncationOffset = g.truncationOffset ∧
      p.sealed = decide (g.state = .sealed) ∧ p.merged = false := by
  let engine : Engine := { s.engine with pending := (s.engine.pending.registerAll [name]).1 }
  have halike : s.engine.Alike engine := .withPending s.engine _
  obtain ⟨e, hr, he, hown, hd, -, -⟩ := h.resolve halike
  have hproperties : engine.properties name = .ok e.metadata.properties := by
    have hthere : e.state ≠ .creating := by
      rw [Entry.state, hd.state]
      rcases h.readable with hs | hs <;> rw [hs] <;> decide
    have hopen : engine.closed = false := h.rested.isOpen
    rw [Engine.properties, Engine.requireOpen_eq, hopen, hr]
    simp only [Bool.false_eq_true, ↓reduceIte, if_neg hthere]
  have hclear : engine.pending.isClear name s.engine.pending.barrier = true :=
    Pending.isClear_registerAll h.rested.clear _ name
  have hbegin : (engine.begin s.engine.pending.barrier (.info name true)).2.1 =
      .finished (.ok (.properties e.metadata.properties)) := by
    change (engine.describe name true s.engine.pending.barrier).2.1 = _
    rw [Engine.describe, hclear, hproperties]
    rfl
  have hvalid : (Request.info name true).validate s.engine.config patience = .ok () :=
    Request.validate_of_name rfl h.valid rfl
  have hanswer := (h.rested.ask_of_ends hvalid (by decide)
    (Engine.ends_of_finished rfl hbegin)).1
  have hdescribe : s.describe name =
      ((s.ask (.info name true)).1, .ok e.metadata.properties) := by
    unfold Scheduler.describe
    split
    · next heq => rw [heq] at hanswer ⊢; cases hanswer; rfl
    · next hno heq => rw [heq] at hanswer; cases hanswer; exact absurd rfl (hno _)
    · next heq => rw [heq] at hanswer; cases hanswer
  rw [hdescribe]
  refine ⟨_, rfl, h.query rfl, ?_, hd.length, hd.truncationOffset, ?_, ?_⟩
  · obtain ⟨g', hg', hname⟩ := h.rested.sound.wellFormed.name name id h.named
    obtain rfl := Option.some.inj (h.segment.symm.trans hg')
    exact hd.name.trans hname
  · rw [← h.isSealed, ← hd.state]
    rfl
  · rw [← h.mergedInto, ← hd.mergedInto]
    rfl

/-- All attributes that are asked for are answered as the account says. -/
theorem lookup (h : s.Keeps rs name id g) (ids : List AttributeId) (cache : Bool) :
    (s.ask (.lookup name ids cache)).2 =
      .ok (.attributes (ids.eraseDups.map fun x => (x, g.attributes x))) := by
  let engine : Engine := { s.engine with pending := (s.engine.pending.registerAll [name]).1 }
  have halike : s.engine.Alike engine := .withPending s.engine _
  obtain ⟨e, hr, he, rfl, hd, hc, -⟩ := h.resolve halike
  have hopen : engine.closed = false := h.rested.isOpen
  have hread : e.state.requireReadable e.name = .ok () :=
    SegmentState.requireReadable_eq_ok.mpr (by rw [Entry.state, hd.state]; exact h.readable)
  have hbegin : engine.begin s.engine.pending.barrier (.lookup name ids cache) = _ :=
    Engine.beginLookup_of_resolve hopen hr hread ids cache
  have hvalid : (Request.lookup name ids cache).validate s.engine.config patience = .ok () :=
    Request.validate_of_name rfl h.valid rfl
  by_cases hmissing : (AttributeLookup.ofTiers e.metadata.attributes ids).missing.isEmpty
  · have hnil := List.isEmpty_iff.mp hmissing
    rw [if_pos hmissing, AttributeLookup.answer_ofTiers hc ids
      (fun x hx => by rw [hnil] at hx; cases hx) fun _ _ => rfl] at hbegin
    exact (h.rested.ask_of_ends hvalid (by decide)
      (Engine.ends_of_finished rfl (congrArg (·.2.1) hbegin))).1
  · rw [if_neg hmissing] at hbegin
    have hfinish := Engine.finishLookup_touch he hc ids cache
    obtain ⟨s', hends⟩ := Engine.ends_of_begin (s := engine)
      (o := ⟨.lookup name ids cache, s.engine.pending.barrier,
        (s.engine.pending.registerAll [name]).2, .accepted⟩) rfl (congrArg (·.2.1) hbegin)
      (by rw [hbegin]; exact hfinish)
    exact (h.rested.ask_of_ends hvalid (by decide) hends).1

theorem sized (h : s.Keeps rs name id g) : g.data.length = g.length :=
  h.wellFormed.sized (by rcases h.readable with hs | hs <;> rw [hs] <;> decide)

/-- A read that began since the last eviction, and not before the truncation offset, covers what it
wants up to the end. -/
theorem covers (h : s.Keeps rs name id g) {e : Entry} (he : s.engine.entries.get? id = some e)
    {r : Reader} (hsegment : r.segment = id)
    (hepoch : r.evictionEpoch = e.metadata.evictionEpoch)
    (hposition : g.truncationOffset ≤ r.position) (hrest : r.position + r.remaining = g.length)
    (hgoing : r.done = false) : r.Covers s.engine e := by
  obtain ⟨e', -, he', -, hd, -, hpublished⟩ := h.resolve (.refl _)
  obtain rfl := Option.some.inj (he'.symm.trans he)
  refine ⟨hsegment ▸ he, fun position hlater => ?_, ?_, ?_, fun hdone => ?_⟩
  · have hdeleted : e'.metadata.state ≠ .deleted := hd.state ▸ h.wellFormed.state_ne_deleted
    have hmerged : e'.metadata.mergedInto.isSome = false := hd.mergedInto ▸ h.mergedInto
    have hbelow : ¬position < e'.metadata.truncationOffset := by
      rw [hd.truncationOffset]
      omega
    simp only [Reader.obstacle?, h.rested.isOpen, hpublished, Metadata.tail, hdeleted, hepoch,
      hmerged, decide_false, Bool.false_eq_true, ↓reduceIte, ne_eq, not_true_eq_false,
      if_neg hbelow]
  · rw [hpublished, hd.data, h.sized]
    exact hd.length
  · rw [hd.data, h.sized, hrest]
  · rw [hgoing] at hdone
    cases hdone

/-- A read from the truncation offset begins. -/
theorem openReader (h : s.Keeps rs name id g) {engine : Engine} (halike : s.engine.Alike engine)
    (wanted : Nat) : ∃ e r, engine.entries.get? id = some e ∧
      (engine.openReader name g.truncationOffset wanted).2 = .ok r ∧ r.segment = id ∧
      r.evictionEpoch = e.metadata.evictionEpoch ∧ r.position = g.truncationOffset ∧
      r.remaining = wanted ∧ r.done = false := by
  obtain ⟨e, hr, he, rfl, hd, -, -⟩ := h.resolve halike
  have hread : e.metadata.state.requireReadable name = .ok () :=
    SegmentState.requireReadable_eq_ok.mpr (hd.state ▸ h.readable)
  have hbelow : ¬g.truncationOffset < e.metadata.truncationOffset := by
    rw [hd.truncationOffset]
    exact Nat.lt_irrefl _
  have hbeyond : ¬(e.metadata.state.isSealed = true ∧ e.metadata.length < g.truncationOffset) := by
    have htruncated := h.wellFormed.truncated
    rw [hd.length]
    omega
  refine ⟨e, ⟨e.id, e.name, g.truncationOffset, wanted, e.metadata.evictionEpoch, false⟩, he, ?_,
    rfl, rfl, rfl, rfl, rfl⟩
  simp only [Engine.openReader, hr, hread, if_neg hbelow, if_neg hbeyond]

/-- A read from the truncation offset to the end delivers all that can be read. -/
theorem fetch (h : s.Keeps rs name id g) (hoffset : g.truncationOffset ≤ Request.maxOffset)
    (hne : g.length ≠ g.truncationOffset) :
    (s.fetch name g.truncationOffset (g.length - g.truncationOffset)).2 =
      .chunk (g.data.drop g.truncationOffset) := by
  have htruncated := h.wellFormed.truncated
  have hwanted : g.length - g.truncationOffset ≠ 0 := by omega
  generalize hw : g.length - g.truncationOffset = wanted at hwanted
  let engine : Engine := { s.engine with pending := (s.engine.pending.registerAll [name]).1 }
  have halike : s.engine.Alike engine := .withPending s.engine _
  obtain ⟨e, reader, he, hreader, hsegment, hepoch, hposition, hremaining, hgoing⟩ :=
    h.openReader halike wanted
  have hopen : engine.closed = false := h.rested.isOpen
  have hbegin : engine.begin s.engine.pending.barrier (.read name g.truncationOffset wanted) =
      ((engine.openReader name g.truncationOffset wanted).1,
        .finished (.ok (.reader reader)), []) := by
    change engine.beginRead _ _ _ = _
    rw [Engine.beginRead, Engine.requireOpen_eq, hopen]
    simp only [Bool.false_eq_true, ↓reduceIte, Phase.ofCheck, hreader]
    rfl
  have hvalid : (Request.read name g.truncationOffset wanted).validate s.engine.config patience =
      .ok () := by
    refine Request.validate_of_name rfl h.valid ?_
    have hallowed : Request.checkOffset g.truncationOffset = .ok () :=
      if_neg (Nat.not_lt.mpr hoffset)
    simp only [Request.checkDetails, hallowed, bind, Except.bind, if_neg hwanted]
    rfl
  obtain ⟨hanswer, hengine, -⟩ := h.rested.ask_of_ends hvalid (by decide)
    (Engine.ends_of_finished rfl (congrArg (·.2.1) hbegin))
  have hkeeps : (s.ask (.read name g.truncationOffset wanted)).1.Keeps rs name id g := h.query rfl
  -- beginning the read has only counted it, so its epoch is still that of the entry
  have hopened : engine.Alike (s.ask (.read name g.truncationOffset wanted)).1.engine := by
    have hbegun : engine.Alike
        (engine.begin s.engine.pending.barrier (.read name g.truncationOffset wanted)).1 := by
      rw [hbegin]
      exact .openReader _ _ _ _
    rw [hengine]
    exact hbegun.trans (.settle _ _)
  obtain ⟨e', he', hentries⟩ := hopened.entry id e he
  have hcovers := hkeeps.covers he' hsegment
    (hepoch.trans (hentries.of_metadata Metadata.evictionEpoch fun _ => rfl).symm)
    (Nat.le_of_eq hposition.symm) (by omega) hgoing
  obtain ⟨e₁, -, he₁, -, hd, -, -⟩ := hkeeps.resolve (.refl _)
  obtain rfl := Option.some.inj (he₁.symm.trans he')
  have hend : (reader.toEnd (s.ask (.read name g.truncationOffset wanted)).1.engine false).2.1 =
      .chunk (g.data.drop g.truncationOffset) := by
    have hfuel : reader.remaining < e₁.data.length + 2 := by
      rw [hd.data, h.sized]
      omega
    have hdrained := hcovers.drain false hfuel []
    rw [hposition, hd.data] at hdrained
    rw [Reader.toEnd, hsegment, he', Option.getD_some, hd.data]
    exact hdrained
  unfold Scheduler.fetch
  generalize s.ask (.read name g.truncationOffset wanted) = asked at hanswer hend
  obtain ⟨t, result⟩ := asked
  obtain rfl : result = .ok (.reader reader) := hanswer
  exact hend

/-- All that can be read is read, in whatever chunks. -/
theorem readAll (h : s.Keeps rs name id g) (hoffset : g.truncationOffset ≤ Request.maxOffset)
    {p : Properties} (hname : p.name = name) (hlength : p.length = g.length)
    (htruncation : p.truncationOffset = g.truncationOffset) (hmerged : p.merged = false) :
    s.readAll p = g.data.drop g.truncationOffset := by
  unfold Scheduler.readAll Scheduler.contents?
  rw [hname, hlength, htruncation, hmerged, Bool.false_or]
  by_cases hempty : g.length = g.truncationOffset
  · rw [beq_iff_eq.mpr hempty, if_pos rfl]
    symm
    exact List.drop_eq_nil_of_le (Nat.le_of_eq (h.sized.trans hempty))
  · have hfetch := h.fetch hoffset hempty
    rw [beq_eq_false_iff_ne.mpr hempty, if_neg Bool.false_ne_true]
    generalize s.fetch name g.truncationOffset (g.length - g.truncationOffset) = fetched at hfetch
    obtain ⟨t, poll⟩ := fetched
    obtain rfl : poll = .chunk (g.data.drop g.truncationOffset) := hfetch
    rfl

end Keeps

end Scheduler

end Segments
