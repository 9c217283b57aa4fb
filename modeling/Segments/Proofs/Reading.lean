import Segments.Proofs.Looks

/-!
# Reads under way

A read is looked at from time to time while the store goes on. It delivers the bytes of its segment
from where it began, each of them once and in order, whatever happens in between: bytes only come
behind those that are there, and the published tail says how far they reach. `Following` is a store
with one read, `Kept` what holds of it at every moment.
-/

namespace Segments

/-- All bytes that records have brought to a segment. -/
def Record.bytesFor (rs : List Record) (id : SegmentId) : Bytes :=
  Transfer.contents (rs.filterMap transfer?) id

/-- More transfers bring bytes behind those that are there. -/
theorem Transfer.contents_prefix (ts more : List Transfer) (id : SegmentId) :
    contents ts id <+: contents (ts ++ more) id := by
  have hone : ∀ (c : SegmentId → Bytes) (t : Transfer), c id <+: t.apply c id := by
    intro c t
    cases t with
    | append segment data =>
      by_cases hid : id = segment
      · subst hid
        rw [apply, Function.update_self]
        exact List.prefix_append _ _
      · exact (Function.update_of_ne hid _ c).symm ▸ List.prefix_refl _
    | merge target source =>
      by_cases hid : id = target
      · subst hid
        rw [apply, Function.update_self]
        exact List.prefix_append _ _
      · exact (Function.update_of_ne hid _ c).symm ▸ List.prefix_refl _
  unfold contents
  rw [List.foldl_append]
  generalize ts.foldl apply (fun _ => []) = c
  induction more generalizing c with
  | nil => exact List.prefix_refl _
  | cons t more ih => exact (hone c t).trans (ih _)

theorem Record.bytesFor_prefix (rs more : List Record) (id : SegmentId) :
    bytesFor rs id <+: bytesFor (rs ++ more) id := by
  unfold bytesFor
  rw [List.filterMap_append]
  exact Transfer.contents_prefix _ _ id

namespace Account

/-- A segment that is sealed after a record was sealed by it, or was sealed before. -/
theorem sealed_of_apply {a : Account} {r : Record} (hr : a.Admits r) {id : SegmentId}
    {g : SegmentAccount} (hg : (a.apply r).segments id = some g) (hs : g.state = .sealed) :
    r = .sealing id g.length ∨
      ∃ g₀, a.segments id = some g₀ ∧ g₀.state = .sealed ∧ g₀.length = g.length := by
  -- an active segment stays active unless the record seals it
  have hactive : ∀ {j : SegmentId} {f : SegmentAccount → SegmentAccount} {g₀ : SegmentAccount},
      a.segments j = some g₀ → g₀.state = .active →
      (a.modify j f).segments id = some g → (∀ g', (f g').state = g'.state) →
      ∃ g₀, a.segments id = some g₀ ∧ g₀.state = .sealed ∧ g₀.length = g.length := by
    intro j f g₀ hg₀ hstate hmodified hf
    obtain ⟨g', hg', rfl⟩ := segments_modify_eq_some hmodified
    split at hs
    · next hj =>
      subst hj
      obtain rfl := Option.some.inj (hg₀.symm.trans hg')
      rw [hf, hstate] at hs
      cases hs
    · next hj =>
      rw [if_neg hj]
      exact ⟨g', hg', hs, rfl⟩
  cases r with
  | create j name values =>
    by_cases hj : id = j
    · simp only [Account.apply, hj, Function.update_self, Option.some.injEq] at hg
      rw [← hg] at hs
      cases hs
    · simp only [Account.apply, Function.update_of_ne hj] at hg
      exact Or.inr ⟨g, hg, hs, rfl⟩
  | append j offset data values =>
    obtain ⟨g₀, hg₀, hstate, -⟩ := hr
    exact Or.inr (hactive hg₀ hstate hg fun _ => rfl)
  | updateAttributes j values =>
    obtain ⟨g₀, hg₀, hstate⟩ := hr
    exact Or.inr (hactive hg₀ hstate hg fun _ => rfl)
  | sealing j length =>
    obtain ⟨g₀, hg₀, -, rfl⟩ := hr
    obtain ⟨g', hg', rfl⟩ := segments_modify_eq_some hg
    split
    · next hj =>
      subst hj
      obtain rfl := Option.some.inj (hg₀.symm.trans hg')
      exact Or.inl rfl
    · next hj =>
      rw [if_neg hj] at hs
      exact Or.inr ⟨g', hg', hs, rfl⟩
  | merge target source sourceLength offset =>
    obtain ⟨g₀, -, hg₀, -, hstate, -⟩ := hr
    obtain ⟨g', hg', rfl⟩ := segments_modify_eq_some hg
    split at hs
    · cases hs
    · next hj =>
      rw [if_neg hj] at hactive ⊢
      exact Or.inr (hactive hg₀ hstate hg' fun _ => rfl)
  | truncate j offset =>
    obtain ⟨g', hg', rfl⟩ := segments_modify_eq_some hg
    split at hs
    · next hj =>
      rw [if_pos hj]
      exact Or.inr ⟨g', hg', hs, rfl⟩
    · next hj =>
      rw [if_neg hj]
      exact Or.inr ⟨g', hg', hs, rfl⟩
  | delete j =>
    by_cases hj : id = j
    · simp [Account.apply, hj] at hg
    · simp only [Account.apply, Function.update_of_ne hj] at hg
      exact Or.inr ⟨g, hg, hs, rfl⟩

/-- A sealed segment was sealed at the length that it has. -/
theorem sealing_mem {rs : List Record} (h : start.AdmitsAll rs) {id : SegmentId}
    {g : SegmentAccount} (hg : (after rs).segments id = some g) (hs : g.state = .sealed) :
    .sealing id g.length ∈ rs := by
  induction rs using List.reverseRecOn generalizing g with
  | nil => cases hg
  | append_singleton rs r ih =>
    obtain ⟨hrs, hr, -⟩ := admitsAll_append.mp h
    rw [after_append_singleton] at hg
    rcases sealed_of_apply hr hg hs with rfl | ⟨g₀, hg₀, hs₀, hlength⟩
    · exact List.mem_append_right _ (List.mem_singleton_self _)
    · rw [← hlength]
      exact List.mem_append_left _ (ih hrs hg₀ hs₀)

end Account

namespace Engine

variable {s : Engine} {rs : List Record} {rest : Bytes} {id : SegmentId} {e : Entry}

/-- What is told of a segment that was neither deleted nor merged away is how far its bytes reach,
and these are all that were brought to it. -/
theorem Traced.of_published (h : s.Traced rs rest) (he : s.entries.get? id = some e)
    (hdeleted : e.published.deleted = false) (hmerged : e.published.merged = false) :
    ∃ g, (Account.after rs).segments id = some g ∧ e.Depicts g ∧
      (g.state = .active ∨ g.state = .sealed) ∧ e.data = Record.bytesFor rs id ∧
      e.published.length = e.data.length := by
  have hpublished := (h.inOrder id e he).published
  rw [hpublished] at hdeleted hmerged ⊢
  have hlive : e.state ≠ .deleted := of_decide_eq_false hdeleted
  obtain ⟨g, hg, -, -, hd⟩ := h.outlines.of_live
    (show s.live? id = some e by simp only [live?, he, hlive, ↓reduceIte])
  have hw := h.wellFormed.segment id g hg
  have hm : g.state ≠ .merged := by
    intro hm
    have hsome := hw.merged.mpr hm
    rw [← hd.mergedInto] at hsome
    exact Bool.false_ne_true (hmerged.symm.trans hsome)
  refine ⟨g, hg, hd, ?_, ?_, ?_⟩
  · rcases hw.state with hactive | hsealed | hmerged
    · exact Or.inl hactive
    · exact Or.inr hsealed
    · exact absurd hmerged hm
  · rw [hd.data, (Account.sums_after h.admitted).data id g (.there hg hm)]
    rfl
  · exact (hd.length.trans (hw.sized hm).symm).trans (congrArg List.length hd.data.symm)

end Engine

namespace Traffic

variable {t : Traffic} {rs : List Record} {rest : Bytes}

theorem announces_stride (h : t.engine.Traced rs rest) {x : Stride} (hx : x.staysOpen = true) :
    t.engine.Announces (t.stride x).engine := by
  cases x with
  | moved m => exact announces_step h.outlines m
  | reopened config contents clock => cases hx

/-- While a store stays open its entries go on. -/
theorem announces_along (h : t.engine.Traced rs rest) {strides : List Stride}
    (hopen : ∀ x ∈ strides, x.staysOpen = true) :
    t.engine.Announces (t.along strides).engine := by
  induction strides generalizing t rs rest with
  | nil => exact .refl _
  | cons x strides ih =>
    obtain ⟨hx, hstrides⟩ := List.forall_mem_cons.mp hopen
    obtain ⟨new, rest', htraced, -⟩ := traced_stride h x
    exact (announces_stride h hx).trans (ih htraced hstrides)

end Traffic

/-- The bytes that a look has given. -/
def Poll.bytes : Poll → Bytes
  | chunk bytes => bytes
  | _ => []

/-- One thing that happens while a read is under way. -/
inductive ReadEvent where
  /-- The store goes on. -/
  | goes (stride : Stride)
  /-- The read is looked at; the store may be lost by then. -/
  | looks (dropped : Bool)

/-- Whether the store stays open. -/
def ReadEvent.staysOpen : ReadEvent → Bool
  | goes x => x.staysOpen
  | looks _ => true

/-- A store, a read on it, and what the looks at the read have given so far. -/
structure Following where
  /-- The store. -/
  traffic : Traffic
  /-- The read. -/
  reader : Reader
  /-- What was given, the first look first. -/
  polls : List Poll

namespace Following

/-- The entry of the segment that is read. -/
def entry (f : Following) : Entry := f.traffic.engine.entry f.reader.segment

/-- What a look at the read gives, and the read after it. -/
def look (f : Following) (dropped : Bool) : Reader × Poll :=
  ((f.reader.next f.traffic.engine dropped).1, (f.reader.next f.traffic.engine dropped).2.1)

/-- All bytes that were delivered. -/
def delivered (f : Following) : Bytes := f.polls.flatMap Poll.bytes

/-- What something does that happens. -/
def on (f : Following) : ReadEvent → Following
  | .goes x => { f with traffic := f.traffic.stride x }
  | .looks dropped =>
    { f with reader := (f.look dropped).1, polls := f.polls ++ [(f.look dropped).2] }

/-- What everything does that happens. -/
def through (f : Following) (events : List ReadEvent) : Following := events.foldl on f

/-- Whether the read has failed before. -/
def HasFailed (f : Following) : Prop := ∃ error, .failed error ∈ f.polls

/-- What holds of a read at every moment: it has delivered the bytes from its beginning to its
position. -/
structure Kept (f : Following) (offset maxLength : Nat) (rs : List Record) : Prop where
  /-- The records of the journal say what the store has. -/
  traced : ∃ rest, f.traffic.engine.Traced rs rest
  /-- The segment has an entry. -/
  there : f.traffic.engine.entries.get? f.reader.segment = some f.entry
  /-- What was delivered is no longer wanted. -/
  sum : f.reader.position + f.reader.remaining = offset + maxLength
  /-- The read goes forward. -/
  forward : offset ≤ f.reader.position
  /-- The bytes up to the position were delivered. -/
  bytes : f.delivered =
    ((Record.bytesFor rs f.reader.segment).drop offset).take (f.reader.position - offset)
  /-- They had been brought to the segment. -/
  within : f.reader.position = offset ∨
    f.reader.position ≤ (Record.bytesFor rs f.reader.segment).length
  /-- A read is over for one of three reasons. -/
  finished : f.reader.done = true → f.reader.remaining = 0 ∨ f.HasFailed ∨
    ∃ length ≤ f.reader.position, .sealing f.reader.segment length ∈ rs
  /-- Who has failed or ended is over. -/
  ended : f.HasFailed ∨ .ended ∈ f.polls → f.reader.done = true

variable {f : Following} {offset maxLength : Nat} {rs : List Record}

/-- The store goes on. -/
theorem Kept.goes (h : f.Kept offset maxLength rs) {x : Stride} (hx : x.staysOpen = true) :
    ∃ new, (f.on (.goes x)).Kept offset maxLength (rs ++ new) := by
  obtain ⟨rest, htraced⟩ := h.traced
  obtain ⟨new, rest', htraced', -⟩ := Traffic.traced_stride htraced x
  obtain ⟨e', he', -⟩ := Traffic.announces_stride htraced hx _ _ h.there
  obtain ⟨more, hmore⟩ := Record.bytesFor_prefix rs new f.reader.segment
  refine ⟨new, ⟨rest', htraced'⟩, ?_, h.sum, h.forward, ?_, ?_, fun hdone => ?_, h.ended⟩
  · change (f.traffic.stride x).engine.entries.get? f.reader.segment = _
    rw [he']
    exact congrArg some (Engine.entry_eq he').symm
  · change f.delivered =
      ((Record.bytesFor (rs ++ new) f.reader.segment).drop offset).take (f.reader.position - offset)
    rw [h.bytes, ← hmore]
    rcases h.within with hbegin | hwithin
    · rw [hbegin, Nat.sub_self, List.take_zero, List.take_zero]
    · have hforward := h.forward
      rw [List.drop_append_of_le_length (by omega), List.take_append_of_le_length]
      rw [List.length_drop]
      omega
  · refine h.within.imp_right fun hwithin => ?_
    change f.reader.position ≤ (Record.bytesFor (rs ++ new) f.reader.segment).length
    rw [← hmore, List.length_append]
    omega
  · refine (h.finished hdone).imp_right (Or.imp_right ?_)
    rintro ⟨length, hlength, hmem⟩
    exact ⟨length, hlength, List.mem_append_left _ hmem⟩

/-- What a look gives. -/
theorem Kept.looks (h : f.Kept offset maxLength rs) (dropped : Bool) :
    f.reader.Looks f.traffic.engine f.entry dropped (f.look dropped).1 (f.look dropped).2 := by
  obtain ⟨rest, htraced⟩ := h.traced
  refine Reader.next_looks rfl (fun hnone => ?_) dropped
  obtain ⟨-, hdeleted, -, hmerged, -⟩ := Reader.obstacle?_eq_none.mp hnone
  obtain ⟨g, -, -, -, -, hlength⟩ := htraced.of_published h.there hdeleted hmerged
  exact Nat.le_of_eq hlength

/-- A read that reaches the end of a sealed segment finds it sealed there by a record. -/
theorem Kept.sealing_mem (h : f.Kept offset maxLength rs)
    (hnone : f.reader.obstacle? f.traffic.engine.closed f.entry.published = none)
    (hsealed : f.entry.published.sealed = true)
    (hend : f.entry.published.length ≤ f.reader.position) :
    ∃ length ≤ f.reader.position, .sealing f.reader.segment length ∈ rs := by
  obtain ⟨rest, htraced⟩ := h.traced
  obtain ⟨-, hdeleted, -, hmerged, -⟩ := Reader.obstacle?_eq_none.mp hnone
  obtain ⟨g, hg, hd, hstate, hdata, hlength⟩ := htraced.of_published h.there hdeleted hmerged
  have hpublished := (htraced.inOrder _ _ h.there).published
  have hs : g.state = .sealed := by
    rcases hstate with hactive | hs
    · rw [hpublished, Metadata.tail, hd.state, hactive] at hsealed
      cases hsealed
    · exact hs
  refine ⟨g.length, ?_, Account.sealing_mem htraced.admitted hg hs⟩
  rw [hpublished, Metadata.tail, hd.length] at hend
  exact hend

/-- A look that gives no bytes leaves what was delivered, and may only end the read. -/
theorem Kept.quiet (h : f.Kept offset maxLength rs) {poll : Poll} {done : Bool}
    (hbytes : poll.bytes = [])
    (hover : done = true → f.reader.remaining = 0 ∨ (∃ error, .failed error ∈ f.polls ++ [poll]) ∨
      ∃ length ≤ f.reader.position, .sealing f.reader.segment length ∈ rs)
    (hended : ((∃ error, .failed error ∈ f.polls ++ [poll]) ∨ .ended ∈ f.polls ++ [poll]) →
      done = true) :
    Kept ⟨f.traffic, { f.reader with done }, f.polls ++ [poll]⟩ offset maxLength rs := by
  refine ⟨h.traced, h.there, h.sum, h.forward, ?_, h.within, hover, hended⟩
  rw [← h.bytes, delivered, delivered, List.flatMap_append, List.flatMap_singleton, hbytes,
    List.append_nil]

/-- While a read goes on it has neither failed nor ended. -/
theorem Kept.going (h : f.Kept offset maxLength rs) (hdone : f.reader.done = false) :
    ¬(f.HasFailed ∨ .ended ∈ f.polls) := by
  intro hended
  rw [h.ended hended] at hdone
  cases hdone

/-- A look that gives bytes gives those that follow. -/
theorem Kept.delivers (h : f.Kept offset maxLength rs) {count : Nat}
    (hgoing : f.reader.done = false)
    (hnone : f.reader.obstacle? f.traffic.engine.closed f.entry.published = none)
    (hwithin : count ≤ f.reader.remaining)
    (hthere : f.reader.position + count ≤ f.entry.published.length) :
    Kept ⟨f.traffic, f.reader.advance count,
      f.polls ++ [.chunk ((f.entry.data.drop f.reader.position).take count)]⟩ offset maxLength
      rs := by
  obtain ⟨rest, htraced⟩ := h.traced
  obtain ⟨-, hdeleted, -, hmerged, -⟩ := Reader.obstacle?_eq_none.mp hnone
  obtain ⟨g, -, -, -, hdata, hlength⟩ := htraced.of_published h.there hdeleted hmerged
  have hsum := h.sum
  have hforward := h.forward
  have hreach : f.reader.position + count ≤ (Record.bytesFor rs f.reader.segment).length := by
    rw [← hdata]
    omega
  refine ⟨⟨rest, htraced⟩, h.there, ?_, ?_, ?_, Or.inr hreach, fun hdone => ?_, fun hended => ?_⟩
  · change f.reader.position + count + (f.reader.remaining - count) = offset + maxLength
    omega
  · change offset ≤ f.reader.position + count
    omega
  · change (f.polls ++ [_]).flatMap Poll.bytes =
      ((Record.bytesFor rs f.reader.segment).drop offset).take
        (f.reader.position + count - offset)
    have hsplit : f.reader.position + count - offset = f.reader.position - offset + count := by
      omega
    have hat : f.reader.position = offset + (f.reader.position - offset) := by omega
    rw [List.flatMap_append, List.flatMap_singleton, hsplit, List.take_add, List.drop_drop,
      ← hat, ← h.bytes, ← hdata]
    rfl
  · have hall : f.reader.remaining ≤ count := of_decide_eq_true hdone
    left
    change f.reader.remaining - count = 0
    omega
  · exact absurd (by simpa [HasFailed] using hended) (h.going hgoing)

/-- A look gives what comes next. -/
theorem Kept.look (h : f.Kept offset maxLength rs) (dropped : Bool) :
    (f.on (.looks dropped)).Kept offset maxLength rs := by
  have hlooks := h.looks dropped
  unfold on
  simp only
  generalize (f.look dropped).1 = r', (f.look dropped).2 = poll at hlooks
  cases hlooks with
  | stays done =>
    refine h.quiet rfl (fun hdone => ?_) fun _ => done
    refine (h.finished hdone).imp_right (Or.imp_left ?_)
    rintro ⟨error, hmem⟩
    exact ⟨error, List.mem_append_left _ hmem⟩
  | filled going filled => exact h.quiet rfl (fun _ => Or.inl filled) fun _ => rfl
  | @fails error going hindered =>
    refine h.quiet rfl (fun _ => Or.inr (Or.inl ⟨error, ?_⟩)) fun _ => rfl
    exact List.mem_append_right _ (List.mem_singleton_self _)
  | closes going wanted unhindered atEnd sealed =>
    refine h.quiet rfl (fun _ => Or.inr (Or.inr ?_)) fun _ => rfl
    exact h.sealing_mem unhindered sealed atEnd
  | orphaned going lost =>
    refine h.quiet rfl
      (fun _ => Or.inr (Or.inl ⟨.cancelled "segment store dropped", ?_⟩)) fun _ => rfl
    exact List.mem_append_right _ (List.mem_singleton_self _)
  | waits going wanted unhindered atEnd unsealed =>
    refine h.quiet rfl (fun hdone => ?_) fun hended => ?_
    · rw [going] at hdone
      cases hdone
    · exact absurd (by simpa [HasFailed] using hended) (h.going going)
  | delivers going unhindered positive within small there =>
    exact h.delivers going unhindered within there

end Following

end Segments
