import Segments.Proofs.Bindings

/-!
# What segments have is their own

A number is given out once, so no record before the creation of a segment bears its number. What a
segment has is what the records since then have brought to it, even if others had its name before,
and reopenings do not change that as long as they find what was stored.
-/

namespace Segments

namespace Account

variable {a : Account} {rs before later : List Record} {id : SegmentId} {g : SegmentAccount}
  {found : SegmentId → AttributeId → AttributeValue}

/-- The records of a journal bear numbers that were given out. -/
theorem segment_lt_foldl (hw : a.WellFormed) (h : a.AdmitsAll rs) :
    ∀ r ∈ rs, r.segment < (rs.foldl apply a).nextId := by
  induction rs generalizing a with
  | nil => nofun
  | cons r rs ih =>
    refine List.forall_mem_cons.mpr ⟨?_, ih (hw.apply h.1) h.2⟩
    exact Nat.lt_of_lt_of_le (h.1.segment_lt hw) (grows_foldl (hw.apply h.1) h.2).nextId

/-- No record before the creation of a segment bears its number. -/
theorem segment_ne_of_create {name : String} {values : AttributeValues}
    (h : start.AdmitsAll (before ++ .create id name values :: later)) :
    ∀ r ∈ before, r.segment ≠ id := by
  obtain ⟨hbefore, ⟨rfl, -⟩, -⟩ := admitsAll_append.mp h
  intro r hr
  exact Nat.ne_of_lt (segment_lt_foldl wellFormed_start hbefore r hr)

/-- Every segment was created, by the name that it has. -/
theorem exists_created (h : start.AdmitsAll rs) (hg : (after rs).segments id = some g) :
    ∃ before values later, rs = before ++ .create id g.name values :: later := by
  induction rs using List.reverseRecOn generalizing g with
  | nil => cases hg
  | append_singleton rs r ih =>
    obtain ⟨hrs, hr, -⟩ := admitsAll_append.mp h
    have hw := wellFormed_after hrs
    rw [after_append_singleton] at hg
    rcases (grows_apply hw hr).segment id g hg with ⟨g₀, hg₀, hgrows⟩ | hle
    · obtain ⟨before, values, later, rfl⟩ := ih hrs hg₀
      exact ⟨before, values, later ++ [r], by rw [hgrows.name, List.append_assoc]; rfl⟩
    · have hlt := (hw.apply hr).numbered id g hg
      cases r with
      | create segment name values =>
        obtain ⟨hsegment, -⟩ := hr
        obtain rfl : id = segment := Nat.le_antisymm (Nat.le_of_lt_succ hlt) (hsegment ▸ hle)
        simp only [Account.apply, Function.update_self, Option.some.injEq] at hg
        exact ⟨rs, values, [], by rw [← hg]; rfl⟩
      | _ => exact absurd hlt (Nat.not_lt.mpr hle)

/-- What a segment has over one attribute store it has over another, values aside. -/
theorem Has.elsewhere (h : (after rs found).Has id g)
    (found' : SegmentId → AttributeId → AttributeValue) : ∃ g', (after rs found').Has id g' := by
  have hresembles := (resembles_start found found').foldl rs
  cases h with
  | there account unmerged =>
    obtain ⟨attributes, hg⟩ := hresembles.of_segment account
    exact ⟨_, .there hg unmerged⟩
  | ahead fresh empty =>
    exact ⟨.created "" ((after rs found').found id), .ahead (hresembles.nextId ▸ fresh) rfl⟩

end Account

namespace Record

variable {rs before later : List Record} {id : SegmentId}

/-- Records of other segments bring no values. -/
theorem lastValue_append_of_ne (h : ∀ r ∈ before, r.segment ≠ id) (later : List Record)
    (x : AttributeId) : lastValue (before ++ later) id x = lastValue later id x := by
  have hnone : before.reverse.findSome? (fun r => r.valueFor? id x) = none := by
    refine List.findSome?_eq_none_iff.mpr fun r hr => ?_
    rw [valueFor?, Account.valuesFor_of_ne (h r (List.mem_reverse.mp hr))]
    rfl
  rw [lastValue, lastValue, List.reverse_append, List.findSome?_append, hnone, Option.or_none]

/-- Records of other segments bring no bytes. -/
theorem contents_of_ne (h : ∀ r ∈ before, r.segment ≠ id) :
    Transfer.contents (before.filterMap transfer?) id = [] := by
  induction before using List.reverseRecOn with
  | nil => rfl
  | append_singleton before r ih =>
    have hne := h r (List.mem_append_right _ (List.mem_singleton_self r))
    rw [filterMap_transfer?_append, Transfer.contents_append]
    have hsame := ih fun r hr => h r (List.mem_append_left _ hr)
    cases r with
    | append segment offset data values =>
      exact (Function.update_of_ne (Ne.symm hne) _ _).trans hsame
    | merge target source length offset =>
      exact (Function.update_of_ne (Ne.symm hne) _ _).trans hsame
    | _ => exact hsame

end Record

/-- What an attribute store has of the segments that are there, or are yet to come, some records
name. -/
def AttributeStore.Named (left : AttributeStore) (rs : List Record) : Prop :=
  ∀ id g, (Account.after rs left.valuesOf).Has id g → ∀ x,
    (id, x) ∉ rs.flatMap Record.named → left.valuesOf id x = nullValue

namespace Engine

/-- A segment has what the records since its creation have brought to it, and no record before bears
its number. -/
structure Stems (s : Engine) (rs : List Record) (id : SegmentId) (e : Entry) : Prop where
  /-- Its values are of records since its creation, and before that nothing was brought to it. -/
  created : ∃ before values later, rs = before ++ .create id e.name values :: later ∧
    (∀ r ∈ before, r.segment ≠ id) ∧
    Transfer.contents (before.filterMap Record.transfer?) id = [] ∧
    ∀ x, s.valueOf e x = Record.lastValue (.create id e.name values :: later) id x
  /-- All its bytes are of records that were to bring bytes to it. -/
  data : e.data = Transfer.contents (rs.filterMap Record.transfer?) id

variable {s : Engine} {rs : List Record} {rest : Bytes} {id : SegmentId} {e : Entry}

/-- Over an attribute store of which records name all that counts, segments have what is their
own. -/
theorem Sound.stems {left : AttributeStore} (h : s.Sound rs rest left.valuesOf)
    (hn : left.Named rs) (he : s.live? id = some e) (hm : e.state ≠ .merged) :
    s.Stems rs id e := by
  obtain ⟨g, hg, -, rfl, hd, hc⟩ := h.agrees.of_live he
  have hm' : g.state ≠ .merged := by
    rw [← hd.state]
    exact hm
  have hresembles := (Account.resembles_start left.valuesOf fun _ => noValues)
  have hadmits := hresembles.admitsAll h.admitted
  obtain ⟨attributes, hg'⟩ := (hresembles.foldl rs).of_segment hg
  have hsums := Account.sums_after hadmits
  have hhas : (Account.after rs).Has e.metadata.id { g with attributes } := .there hg' hm'
  obtain ⟨before, values, later, rfl⟩ := Account.exists_created hadmits hg'
  have hbefore := Account.segment_ne_of_create hadmits
  have hname : e.name = g.name := hd.name
  refine ⟨⟨before, values, later, by rw [hname], hbefore, Record.contents_of_ne hbefore,
    fun x => ?_⟩, hd.data.trans (hsums.data _ { g with attributes } hhas)⟩
  have hsame : attributes x = g.attributes x :=
    Account.attributes_eq h.admitted hg hg' hm' fun hout => (hn _ g (.there hg hm') x hout).symm
  have hlast := hsums.values _ _ hhas x
  rw [Record.lastValue_append_of_ne hbefore] at hlast
  calc s.valueOf e x = g.attributes x := (hc.coherent hm').value_eq x
    _ = attributes x := hsame.symm
    _ = _ := by rw [hname]; exact hlast

end Engine

namespace Traffic

open Engine

variable {t : Traffic} {rs new : List Record} {rest : Bytes} {left : AttributeStore}

/-- What a store has of a segment that is there, or is yet to come, records name when they named
what it was opened with. -/
theorem Stands.stored_named (h : t.Stands rs rest left) (hn : left.Named rs) {id : SegmentId}
    {g : SegmentAccount} (hg : (Account.after rs left.valuesOf).Has id g) {x : AttributeId}
    (hx : x.isCore = false) (hout : (id, x) ∉ rs.flatMap Record.named) :
    t.engine.store.value id x = nullValue := by
  have hnull := hn id g hg x hout
  obtain ⟨earlier, htidy⟩ := h.tidy
  cases hg with
  | there account unmerged =>
    rw [h.sound.engine.stored_of_unnamed htidy account unmerged hx hout, hnull]
  | ahead fresh empty =>
    have hstored := h.sound.engine.agrees.fresh id (h.sound.engine.agrees.nextId ▸ fresh)
    rw [Account.after_found] at hstored
    rw [← hstored, AttributeStore.valuesOf, hx] at hnull
    exact hnull

/-- If reopenings find what was stored, records always name what counts of the attribute store. -/
theorem stands_named (h : t.Stands rs rest left) (hn : left.Named rs) (x : Stride)
    (hf : t.Finds x) : ∃ new rest' left', (t.stride x).Stands (rs ++ new) rest' left' ∧
      left'.Named (rs ++ new) := by
  obtain ⟨new, rest', left', hstands, hover⟩ := stands_stride_over h x
  refine ⟨new, rest', left', hstands, fun id g hg y hout => ?_⟩
  -- whoever is there now, or yet to come, was there before, or was yet to come
  have hadmits := (Account.resembles_start left'.valuesOf left.valuesOf).admitsAll
    hstands.sound.engine.admitted
  obtain ⟨hrs, hnew⟩ := Account.admitsAll_append.mp hadmits
  obtain ⟨g₁, hg₁⟩ := hg.elsewhere left.valuesOf
  rw [Account.after, List.foldl_append] at hg₁
  obtain ⟨g₀, hg₀, -⟩ := hg₁.attributes_foldl (Account.wellFormed_after hrs) hnew
  have hout' : (id, y) ∉ rs.flatMap Record.named := fun hin =>
    hout (by rw [List.flatMap_append]; exact List.mem_append_left _ hin)
  rcases hover with rfl | hleft
  · exact hn id g₀ hg₀ y hout'
  · rw [AttributeStore.valuesOf]
    split
    · rfl
    · next hy =>
      have hy' : y.isCore = false := by simpa using hy
      rw [hleft hf id y hy' hout]
      exact h.stored_named hn hg₀ hy' hout'

theorem stands_named_along (h : t.Stands rs rest left) (hn : left.Named rs)
    {strides : List Stride} (hf : t.Faithful strides) :
    ∃ new rest' left', (t.along strides).Stands (rs ++ new) rest' left' ∧
      left'.Named (rs ++ new) := by
  induction strides generalizing t rs rest left with
  | nil => exact ⟨[], rest, left, by rwa [List.append_nil], by rwa [List.append_nil]⟩
  | cons x strides ih =>
    obtain ⟨new, rest₁, left₁, hstep, hnamed⟩ := stands_named h hn x hf.1
    obtain ⟨more, rest₂, left₂, hlater⟩ := ih hstep hnamed hf.2
    exact ⟨new ++ more, rest₂, left₂, by rwa [← List.append_assoc]⟩

/-- After any strides, whatever is done next leaves all segments alone but those that it is bound
to, and a merge leaves the attributes of its target. An operation that has looked up its segments
stays bound to these, so it never touches a segment that is created later, under whatever name. And
what segments have is of records since their creation, if reopenings find what was stored. -/
theorem isolated_along (config : Config) (logged : Bool) (clock : AttributeValue)
    (strides : List Stride) :
    let t := (start config logged clock).along strides
    (∀ m id, id ∉ m.bound t → t.engine.SameAt (t.step m).engine id ∧
      ∀ e, t.engine.entries.get? id = some e → ∀ x,
        (t.step m).engine.valueOf e x = t.engine.valueOf e x) ∧
    (∀ i o target source, t.operations[i]? = some o →
      o.action? t.engine = some (.merge target source) →
      ∀ m : Move, m.concerns i → t.engine.SameAttributes (t.step m).engine target) ∧
    (∀ i o later, t.operations[i]? = some o → o.phase ≠ .accepted →
      (∀ x ∈ later, x.staysOpen = true) →
      (∀ id ∈ (t.along later).boundOf i, id ∈ t.boundOf i ∧ id < t.engine.nextId) ∧
      ∀ id, t.engine.nextId ≤ id → ∀ m : Move, m.concerns i →
        (t.along later).engine.SameAt ((t.along later).step m).engine id) ∧
    ((start config logged clock).Faithful strides → ∃ rs, rs <+: t.engine.log.records ∧
      ∀ id e, t.engine.live? id = some e → e.state ≠ .merged → t.engine.Stems rs id e) := by
  intro t
  -- the same holds after more strides, so it is shown for any
  have hstep : ∀ (strides : List Stride) (m : Move) (id : SegmentId),
      id ∉ m.bound ((start config logged clock).along strides) →
      ((start config logged clock).along strides).engine.SameAt
        (((start config logged clock).along strides).step m).engine id := by
    intro strides m id hid
    obtain ⟨rs, rest, left, hstands⟩ := stands_start_along config logged clock strides
    exact (queued_along config logged clock strides).1.sameAt_step
      hstands.sound.engine.agrees.outlines (sited_along config logged clock strides) hid
  obtain ⟨rs, rest, left, hstands⟩ := stands_start_along config logged clock strides
  have hqueued := (queued_along config logged clock strides).1
  have hsited := sited_along config logged clock strides
  have houtlines := hstands.sound.engine.agrees.outlines
  have hwellFormed := hstands.sound.engine.wellFormed
  refine ⟨fun m id hid => ⟨hstep strides m id hid, fun e he x => ?_⟩,
    fun i o target source ho hasked m hm => ?_, fun i o later ho hphase hopen => ?_,
    fun hf => ?_⟩
  · exact (hstep strides m id hid).valueOf (houtlines.of_entry he).1 x
  · exact hqueued.sameAttributes_step houtlines hwellFormed hsited ho hasked hm
  · obtain ⟨o', ho', hphase', hsubset⟩ := bound_along ho hphase hopen
    have hbound : ∀ id ∈ (t.along later).boundOf i, id ∈ t.boundOf i ∧ id < t.engine.nextId := by
      intro id hid
      rw [boundOf_of_ne ho' hphase'] at hid
      have hid' := hsubset hid
      constructor
      · rwa [boundOf_of_ne ho hphase]
      · exact houtlines.lt_nextId_of_bound (hqueued.placed i o ho) (hsited i o ho)
          (hstands.sound.valid o (List.mem_of_getElem? ho)) hid'
    have hlater : t.along later = (start config logged clock).along (strides ++ later) :=
      ((start config logged clock).along_append strides later).symm
    refine ⟨hbound, fun id hle m hm => ?_⟩
    have hid : id ∉ (t.along later).boundOf i := fun hin =>
      Nat.not_lt.mpr hle (hbound id hin).2
    rw [hlater] at hid ⊢
    refine hstep (strides ++ later) m id ?_
    cases m with
    | submit request timeout => exact List.not_mem_nil
    | advance j =>
      obtain rfl : j = i := hm
      exact hid
    | pause j =>
      obtain rfl : j = i := hm
      exact hid
    | abandon j error =>
      obtain rfl : j = i := hm
      exact hid
    | _ => exact hm.elim
  · have hnothing : (AttributeStore.ofIndex .empty).Named [] := fun id g _ x _ => by
      rw [AttributeStore.valuesOf_eq_noValues fun _ => rfl]
      rfl
    obtain ⟨new, rest', left', hstands', hnamed⟩ :=
      stands_named_along (stands_start config logged clock) hnothing hf
    obtain ⟨more, hmore⟩ := hstands'.sound.engine.holds.exists_records
    exact ⟨[] ++ new, ⟨more, hmore.symm⟩, fun id e he hm =>
      hstands'.sound.engine.stems hnamed he hm⟩

end Traffic

end Segments
