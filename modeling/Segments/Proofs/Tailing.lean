import Segments.Proofs.Reading

/-!
# Reads are exact

A read that was begun while the store was in use is followed over whatever happens afterwards. Each
look gives bytes that the segment has at the position; it gives an end, a failure or nothing yet
only for the reasons that there are for it; and a read that has to wait need not look again before
its segment has published something or the store is shut down.
-/

namespace Segments

namespace Engine

variable {s : Engine} {name : String} {offset maxLength : Nat} {r : Reader}

/-- A read that begins is at its offset in a segment with an entry. -/
theorem openReader_eq_ok (h : (s.openReader name offset maxLength).2 = .ok r) :
    ∃ e, s.resolve name = .ok e ∧
      r = ⟨e.id, e.name, offset, maxLength, e.metadata.evictionEpoch, false⟩ := by
  unfold openReader at h
  split at h
  · cases h
  · next e he =>
    simp only at h
    split at h
    · cases h
    · split at h
      · cases h
      · split at h
        · cases h
        · exact ⟨e, he, (Except.ok.inj h).symm⟩

theorem beginRead_eq_ok
    (h : (s.beginRead name offset maxLength).2.1 = .finished (.ok (.reader r))) :
    ∃ e, s.resolve name = .ok e ∧
      r = ⟨e.id, e.name, offset, maxLength, e.metadata.evictionEpoch, false⟩ := by
  unfold beginRead Phase.ofCheck at h
  split at h
  · cases h
  · refine openReader_eq_ok (s := s) ?_
    cases hresult : (s.openReader name offset maxLength).2 with
    | error e =>
      simp only [hresult] at h
      cases h
    | ok r' =>
      simp only [hresult] at h
      cases h
      rfl

end Engine

/-- Looking at a read does not make it one of another segment. -/
theorem Reader.Looks.segment {r r' : Reader} {s : Engine} {e : Entry} {dropped : Bool} {poll : Poll}
    (h : r.Looks s e dropped r' poll) : r'.segment = r.segment := by
  cases h <;> rfl

/-- A read that an operation begins when it goes on, after all that happens from then on. -/
def Traffic.followed (t : Traffic) (i : Nat) (reader : Reader) (events : List ReadEvent) :
    Following :=
  (Following.mk (t.step (.advance i)) reader []).through events

namespace Following

variable {f : Following} {offset maxLength : Nat} {rs : List Record}

/-! ## Looks -/

/-- What a read is given whenever it is looked at, and why it is given nothing. -/
structure Exact (f : Following) (chunkSize : Nat) (rs : List Record) (dropped : Bool) : Prop where
  /-- A chunk has bytes that the segment has at the position, where nothing is truncated. -/
  chunk {bytes : Bytes} : (f.look dropped).2 = .chunk bytes →
    bytes ≠ [] ∧ bytes.length ≤ max chunkSize 1 ∧
      f.entry.metadata.truncationOffset ≤ f.reader.position ∧
      f.reader.position + bytes.length ≤ f.entry.data.length ∧
      bytes = (f.entry.data.drop f.reader.position).take bytes.length ∧
      (f.look dropped).1 = f.reader.advance bytes.length
  /-- The read is over only if all that was wanted was delivered, it has failed, or the segment was
  sealed with nothing behind the position. -/
  ended : (f.look dropped).2 = .ended → f.reader.remaining = 0 ∨ f.HasFailed ∨
    ∃ length ≤ f.reader.position, .sealing f.reader.segment length ∈ rs
  /-- It ends at the end of a segment that is sealed then. -/
  closes : (f.look dropped).2 = .ended → f.reader.done = false → f.reader.remaining = 0 ∨
    f.entry.state = .sealed ∧ f.entry.metadata.length ≤ f.reader.position
  /-- It fails once, for what readers are told. -/
  failed {error : SegmentError} : (f.look dropped).2 = .failed error →
    ¬f.HasFailed ∧ (f.look dropped).1.done = true ∧
      (f.reader.obstacle? f.traffic.engine.closed f.entry.metadata.tail = some error ∨
        dropped = true ∧ error = .cancelled "segment store dropped")
  /-- It waits only in an open store at the end of an active segment, which was not evicted since
  the read began, nor truncated behind the position. -/
  waiting : (f.look dropped).2 = .waiting → (f.look dropped).1 = f.reader ∧
    f.reader.remaining ≠ 0 ∧ ¬f.HasFailed ∧ f.traffic.engine.closed = false ∧
      f.entry.state = .active ∧ f.entry.metadata.evictionEpoch = f.reader.evictionEpoch ∧
      f.entry.metadata.truncationOffset ≤ f.reader.position ∧
      f.entry.metadata.length ≤ f.reader.position ∧ f.entry.published = f.entry.metadata.tail

theorem Kept.published (h : f.Kept offset maxLength rs) :
    f.entry.published = f.entry.metadata.tail := by
  obtain ⟨rest, htraced⟩ := h.traced
  exact (htraced.inOrder _ _ h.there).published

/-- Who goes on has not failed. -/
theorem Kept.not_hasFailed (h : f.Kept offset maxLength rs) (hgoing : f.reader.done = false) :
    ¬f.HasFailed := by
  intro hfailed
  exact h.going hgoing (Or.inl hfailed)

/-- Where nothing is in the way the segment can be read. -/
theorem Kept.readable (h : f.Kept offset maxLength rs)
    (hnone : f.reader.obstacle? f.traffic.engine.closed f.entry.published = none) :
    (f.entry.state = .active ∨ f.entry.state = .sealed) ∧
      f.entry.published.length = f.entry.data.length := by
  obtain ⟨rest, htraced⟩ := h.traced
  obtain ⟨-, hdeleted, -, hmerged, -⟩ := Reader.obstacle?_eq_none.mp hnone
  obtain ⟨g, -, hd, hstate, -, hlength⟩ := htraced.of_published h.there hdeleted hmerged
  rw [Entry.state, hd.state]
  exact ⟨hstate, hlength⟩

theorem Kept.exact (h : f.Kept offset maxLength rs) (dropped : Bool) :
    f.Exact f.traffic.engine.config.readChunkSize rs dropped := by
  have hlooks := h.looks dropped
  have hpublished := h.published
  generalize hr : (f.look dropped).1 = r', hpoll : (f.look dropped).2 = poll at hlooks
  constructor
  · intro bytes hbytes
    rw [hpoll] at hbytes
    subst hbytes
    cases hlooks with
    | @delivers count going unhindered positive within small there =>
      obtain ⟨-, -, -, -, htruncated⟩ := Reader.obstacle?_eq_none.mp unhindered
      obtain ⟨-, hlength⟩ := h.readable unhindered
      have hcount : ((f.entry.data.drop f.reader.position).take count).length = count := by
        rw [List.length_take, List.length_drop]
        omega
      rw [hpublished] at htruncated
      rw [hcount, hr]
      refine ⟨fun hnil => ?_, small, htruncated, ?_, rfl, rfl⟩
      · rw [hnil] at hcount
        exact Nat.ne_of_lt positive hcount
      · omega
  · intro hended
    rw [hpoll] at hended
    subst hended
    cases hlooks with
    | stays done => exact h.finished done
    | filled going filled => exact Or.inl filled
    | closes going wanted unhindered atEnd sealed =>
      exact Or.inr (Or.inr (h.sealing_mem unhindered sealed atEnd))
  · intro hended hgoing
    rw [hpoll] at hended
    subst hended
    cases hlooks with
    | stays done =>
      rw [hgoing] at done
      cases done
    | filled going filled => exact Or.inl filled
    | closes going wanted unhindered atEnd sealed =>
      rw [hpublished] at sealed atEnd
      refine Or.inr ⟨?_, atEnd⟩
      rcases (h.readable unhindered).1 with hactive | hsealed
      · rw [Metadata.tail, ← Entry.state, hactive] at sealed
        cases sealed
      · exact hsealed
  · intro error hfailed
    rw [hpoll] at hfailed
    subst hfailed
    rw [hr]
    cases hlooks with
    | fails going hindered =>
      rw [hpublished] at hindered
      exact ⟨h.not_hasFailed going, rfl, Or.inl hindered⟩
    | orphaned going lost => exact ⟨h.not_hasFailed going, rfl, Or.inr ⟨lost, rfl⟩⟩
  · intro hwaiting
    rw [hpoll] at hwaiting
    subst hwaiting
    cases hlooks with
    | waits going wanted unhindered atEnd unsealed =>
      obtain ⟨hopen, -, hepoch, -, htruncated⟩ := Reader.obstacle?_eq_none.mp unhindered
      have hstate : f.entry.state = .active := by
        rcases (h.readable unhindered).1 with hactive | hsealed
        · exact hactive
        · rw [hpublished, Metadata.tail, ← Entry.state, hsealed] at unsealed
          cases unsealed
      rw [hpublished] at hepoch htruncated atEnd
      exact ⟨hr, wanted, h.not_hasFailed going, hopen, hstate, hepoch, htruncated, atEnd,
        hpublished⟩

/-- A read that waits goes on waiting until its segment has published something or the store is shut
down. -/
theorem Kept.waits_along (h : f.Kept offset maxLength rs) {dropped : Bool}
    (hwaiting : (f.look dropped).2 = .waiting) {later : List Stride}
    (hstays : ∀ x ∈ later, x.staysOpen = true)
    (hopen : (f.traffic.along later).engine.closed = false)
    (hquiet : ((f.traffic.along later).engine.entry f.reader.segment).hasChanged f.entry.watch =
      false) :
    f.reader.next (f.traffic.along later).engine false = (f.reader, .waiting, []) := by
  obtain ⟨rest, htraced⟩ := h.traced
  obtain ⟨e', he', hannounces⟩ := Traffic.announces_along htraced hstays _ _ h.there
  rw [Engine.entry_eq he'] at hquiet
  have hfew : ¬f.entry.publications < e'.publications := of_decide_eq_false hquiet
  -- nothing was published, so what is told is what was told when the read had to wait
  have hsame : e'.published = f.entry.published :=
    hannounces.published (Nat.le_antisymm (Nat.not_lt.mp hfew) hannounces.publications)
  have hlooks := h.looks dropped
  rw [hwaiting] at hlooks
  generalize (f.look dropped).1 = r' at hlooks
  cases hlooks with
  | waits going wanted unhindered atEnd unsealed =>
    have hnone : f.reader.obstacle? (f.traffic.along later).engine.closed e'.published = none := by
      rw [Reader.obstacle?_eq_none] at unhindered ⊢
      rw [hopen, hsame]
      exact ⟨rfl, unhindered.2⟩
    rw [← hsame] at atEnd unsealed
    have havailable : f.reader.available e'
        (f.traffic.along later).engine.config.readChunkSize = .ok [] := if_pos atEnd
    rw [Reader.next, going, if_neg Bool.false_ne_true, if_neg wanted, he']
    simp only [Option.getD_some, hnone, havailable, unsealed, Bool.false_eq_true, ↓reduceIte]

/-! ## From the beginning -/

/-- What is kept by one thing that happens. -/
theorem Kept.on (h : f.Kept offset maxLength rs) {event : ReadEvent}
    (hopen : event.staysOpen = true) :
    ∃ new, (f.on event).Kept offset maxLength (rs ++ new) ∧
      (f.on event).reader.segment = f.reader.segment ∧
      (f.on event).traffic.engine.config = f.traffic.engine.config := by
  cases event with
  | goes x =>
    obtain ⟨rest, htraced⟩ := h.traced
    obtain ⟨new, hkept⟩ := h.goes hopen
    exact ⟨new, hkept, rfl, Traffic.config_stride htraced hopen⟩
  | looks dropped =>
    refine ⟨[], ?_, (h.looks dropped).segment, rfl⟩
    rw [List.append_nil]
    exact h.look dropped

/-- What is kept by all that happens. -/
theorem Kept.through (h : f.Kept offset maxLength rs) {events : List ReadEvent}
    (hopen : ∀ event ∈ events, event.staysOpen = true) :
    ∃ new, (f.through events).Kept offset maxLength (rs ++ new) ∧
      (f.through events).reader.segment = f.reader.segment ∧
      (f.through events).traffic.engine.config = f.traffic.engine.config := by
  induction events generalizing f rs with
  | nil => exact ⟨[], by rwa [List.append_nil], rfl, rfl⟩
  | cons event events ih =>
    obtain ⟨hevent, hevents⟩ := List.forall_mem_cons.mp hopen
    obtain ⟨new, hkept, hsegment, hconfig⟩ := h.on hevent
    obtain ⟨more, hkept', hsegment', hconfig'⟩ := ih hkept hevents
    exact ⟨new ++ more, by rwa [← List.append_assoc], hsegment'.trans hsegment,
      hconfig'.trans hconfig⟩

/-- A read that was just begun has delivered nothing. -/
theorem kept_of_opened {t : Traffic} {rest : Bytes} (h : t.engine.Traced rs rest) {i : Nat}
    {name : String} {reader : Reader} (hwaits : t.waiting? i = some (.read name offset maxLength))
    (hopened : (t.step (.advance i)).result? i = some (.ok (.reader reader))) :
    ∃ new, Kept ⟨t.step (.advance i), reader, []⟩ offset maxLength (rs ++ new) := by
  obtain ⟨⟨request, barrier, registrations, phase⟩, ho, rfl, rfl⟩ :=
    Traffic.operation_of_waiting hwaits
  obtain ⟨hi, -⟩ := List.getElem?_eq_some_iff.mp ho
  simp only [Traffic.result?, Traffic.step, ho, List.getElem?_set_self hi, Option.bind_some,
    Phase.result?_eq_some] at hopened
  obtain ⟨e, he, rfl⟩ := Engine.beginRead_eq_ok hopened
  obtain ⟨new, rest', htraced, -⟩ := Traffic.traced_stride h (.moved (.advance i))
  obtain ⟨e', he', -⟩ :=
    Traffic.announces_step h.outlines (.advance i) _ _ (h.outlines.of_resolve he).2
  refine ⟨new, ⟨rest', htraced⟩, ?_, rfl, Nat.le_refl _, ?_, Or.inl rfl, by rintro ⟨⟩, ?_⟩
  · exact he'.trans (congrArg some (Engine.entry_eq he').symm)
  · change [] = ((Record.bytesFor (rs ++ new) e.id).drop offset).take (offset - offset)
    rw [Nat.sub_self, List.take_zero]
  · rintro (⟨error, hfailed⟩ | hended)
    · cases hfailed
    · cases hended

theorem Kept.length_delivered (h : f.Kept offset maxLength rs) :
    f.delivered.length = f.reader.position - offset := by
  have hforward := h.forward
  rw [h.bytes, List.length_take, List.length_drop]
  rcases h.within with hbegin | hwithin
  · omega
  · omega

/-- While the segment that is read was neither deleted nor merged away, what was delivered is what
it has from the offset to the position. -/
theorem Kept.delivered_eq (h : f.Kept offset maxLength rs)
    (hlive : f.entry.state ≠ .deleted) (hunmerged : f.entry.metadata.mergedInto = none) :
    f.delivered = (f.entry.data.drop offset).take (f.reader.position - offset) := by
  obtain ⟨rest, htraced⟩ := h.traced
  have hdeleted : f.entry.published.deleted = false := by
    rw [h.published]
    exact decide_eq_false hlive
  have hmerged : f.entry.published.merged = false := by
    rw [h.published, Metadata.tail, hunmerged]
    rfl
  obtain ⟨g, -, -, -, hdata, -⟩ := htraced.of_published h.there hdeleted hmerged
  rw [h.bytes, hdata]

/-- A read that was begun at any time is exact, whatever happens afterwards and whenever it is
looked at: it has delivered the bytes of its segment from its offset to its position, and the rest
is wanted still. Of those bytes the next look gives the following ones, or else what there is to be
given instead; and if it gives nothing yet, looking again is of no use before something is published
or the store is shut down. -/
theorem exact_through (config : Config) (logged : Bool) (clock : AttributeValue)
    (strides : List Stride) {i : Nat} {name : String} {offset maxLength : Nat} {reader : Reader}
    (hwaits : ((Traffic.start config logged clock).along strides).waiting? i =
      some (.read name offset maxLength))
    (hopened : (((Traffic.start config logged clock).along strides).step (.advance i)).result? i =
      some (.ok (.reader reader)))
    {events : List ReadEvent} (hopen : ∀ event ∈ events, event.staysOpen = true) :
    let t := (Traffic.start config logged clock).along strides
    let f := t.followed i reader events
    f.reader.segment = reader.segment ∧
    f.reader.position + f.reader.remaining = offset + maxLength ∧
    offset + f.delivered.length = f.reader.position ∧
    (f.entry.state ≠ .deleted → f.entry.metadata.mergedInto = none →
      f.delivered = (f.entry.data.drop offset).take (f.reader.position - offset)) ∧
    ∃ rs, rs <+: f.traffic.engine.log.records ∧
      f.delivered =
        ((Record.bytesFor rs reader.segment).drop offset).take (f.reader.position - offset) ∧
      ∀ dropped, f.Exact t.engine.config.readChunkSize rs dropped ∧
        ∀ later, (f.look dropped).2 = .waiting → (∀ x ∈ later, x.staysOpen = true) →
          (f.traffic.along later).engine.closed = false →
          ((f.traffic.along later).engine.entry reader.segment).hasChanged f.entry.watch = false →
          f.reader.next (f.traffic.along later).engine false = (f.reader, .waiting, []) := by
  intro t f
  obtain ⟨_, _, _, hstands⟩ := Traffic.stands_start_along config logged clock strides
  obtain ⟨rs, rest, hbefore⟩ := hstands.traced
  obtain ⟨new, hbegun⟩ := kept_of_opened hbefore hwaits hopened
  obtain ⟨more, hkept, hsegment, hconfig⟩ := hbegun.through hopen
  obtain ⟨rest', htraced⟩ := hkept.traced
  obtain ⟨behind, hbehind⟩ := htraced.holds.exists_records
  have hsize : f.traffic.engine.config = t.engine.config :=
    hconfig.trans (Traffic.config_stride (x := .moved (.advance i)) hbefore rfl)
  have hlength : f.delivered.length = f.reader.position - offset := hkept.length_delivered
  have hforward : offset ≤ f.reader.position := hkept.forward
  refine ⟨hsegment, hkept.sum, by omega, hkept.delivered_eq, rs ++ new ++ more, ⟨behind, ?_⟩, ?_,
    fun dropped => ⟨?_, fun later hwaiting hstays hstill hquiet => ?_⟩⟩
  · exact hbehind.symm
  · rw [← hsegment]
    exact hkept.bytes
  · rw [← hsize]
    exact hkept.exact dropped
  · rw [← hsegment] at hquiet
    exact hkept.waits_along hwaiting hstays hstill hquiet

/-- A segment with three bytes, and somebody about to read five bytes behind the first; two more are
to be appended, and then the segment is to be sealed. -/
def tailed : List Stride :=
  [.moved (.submit (.create "a" []) 1), .moved (.advance 0),
    .moved (.submit (.append "a" [1, 2, 3] []) 1), .moved (.advance 1),
    .moved (.submit (.read "a" 1 5) 1),
    .moved (.submit (.append "a" [4, 5] []) 1),
    .moved (.submit (.sealing "a") 1)]

/-- Four looks, with the append after the second and the sealing after the third. -/
def looking : List ReadEvent :=
  [.looks false, .looks false, .goes (.moved (.advance 3)), .looks false,
    .goes (.moved (.advance 4)), .looks false]

/-- The read gets what is there, waits for what is appended, and ends with the segment. -/
theorem exact_through_of_tailed :
    ((Traffic.start .standard false 0).along tailed).waiting? 2 = some (.read "a" 1 5) ∧
      (((Traffic.start .standard false 0).along tailed).step (.advance 2)).result? 2 =
        some (.ok (.reader ⟨1, "a", 1, 5, 0, false⟩)) ∧
      (∀ event ∈ looking, event.staysOpen = true) ∧
      (((Traffic.start .standard false 0).along tailed).followed 2 ⟨1, "a", 1, 5, 0, false⟩
        looking).polls = [.chunk [2, 3], .waiting, .chunk [4, 5], .ended] ∧
      1 + (((Traffic.start .standard false 0).along tailed).followed 2 ⟨1, "a", 1, 5, 0, false⟩
          looking).delivered.length =
        (((Traffic.start .standard false 0).along tailed).followed 2 ⟨1, "a", 1, 5, 0, false⟩
          looking).reader.position := by
  have hwaits : ((Traffic.start .standard false 0).along tailed).waiting? 2 =
      some (.read "a" 1 5) := by decide +kernel
  have hopened : (((Traffic.start .standard false 0).along tailed).step (.advance 2)).result? 2 =
      some (.ok (.reader ⟨1, "a", 1, 5, 0, false⟩)) := by decide +kernel
  have hopen : ∀ event ∈ looking, event.staysOpen = true := by decide
  obtain ⟨-, -, hlength, -⟩ := exact_through .standard false 0 tailed hwaits hopened hopen
  exact ⟨hwaits, hopened, hopen, by decide +kernel, hlength⟩

end Following

end Segments
