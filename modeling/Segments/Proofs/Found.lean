import Segments.Proofs.Growth
import Segments.Proofs.Ledger
import Segments.Proofs.Rollback

/-!
# Accounts over an attribute store

A store has from its attribute store what the records of its journal do not name. Accounts of the
same records over different attribute stores are told apart by these attribute values alone, and a
store agrees with the account over the attribute store that it was opened with.
-/

namespace Segments

namespace SegmentAccount

/-- The segment without its attribute values. -/
def bare (g : SegmentAccount) : SegmentAccount := { g with attributes := noValues }

/-- Only the attributes tell apart what is bare the same. -/
theorem eq_of_bare {g g' : SegmentAccount} (h : g'.bare = g.bare) :
    g' = { g with attributes := g'.attributes } := by
  simp only [bare, mk.injEq] at h
  obtain ⟨hname, hstate, hmerged, hlength, htruncation, hdata, -⟩ := h
  rw [← hname, ← hstate, ← hmerged, ← hlength, ← htruncation, ← hdata]

end SegmentAccount

namespace Account

/-- Accounts that only attribute values tell apart. -/
structure Resembles (a b : Account) : Prop where
  /-- The segments agree. -/
  segments : ∀ id, (b.segments id).map SegmentAccount.bare =
    (a.segments id).map SegmentAccount.bare
  /-- The names agree. -/
  names : b.names = a.names
  /-- The next numbers agree. -/
  nextId : b.nextId = a.nextId

variable {a b : Account} {rs : List Record}

namespace Resembles

/-- A segment is in both accounts. -/
theorem of_segment (h : a.Resembles b) {id : SegmentId} {g : SegmentAccount}
    (hg : a.segments id = some g) :
    ∃ attributes, b.segments id = some { g with attributes } := by
  have hsegments := h.segments id
  rw [hg, Option.map_some] at hsegments
  obtain ⟨g', hg', hbare⟩ := Option.map_eq_some_iff.mp hsegments
  exact ⟨g'.attributes, by rw [hg', SegmentAccount.eq_of_bare hbare]⟩

/-- Neither account has a segment that the other has not. -/
theorem segments_eq_none (h : a.Resembles b) {id : SegmentId} (hg : a.segments id = none) :
    b.segments id = none := by
  have hsegments := h.segments id
  rwa [hg, Option.map_none, Option.map_eq_none_iff] at hsegments

/-- The same segment is put in both. -/
theorem update (h : a.Resembles b) (id : SegmentId) {g? g'? : Option SegmentAccount}
    (hg : g'?.map SegmentAccount.bare = g?.map SegmentAccount.bare) (j : SegmentId) :
    (Function.update b.segments id g'? j).map SegmentAccount.bare =
      (Function.update a.segments id g? j).map SegmentAccount.bare := by
  rw [Function.update_apply, Function.update_apply]
  split
  · exact hg
  · exact h.segments j

/-- A change that does not look at attribute values changes both alike. -/
theorem modify (h : a.Resembles b) (id : SegmentId) {f F : SegmentAccount → SegmentAccount}
    (hf : ∀ g, (f g).bare = F g.bare) : (a.modify id f).Resembles (b.modify id f) := by
  refine ⟨h.update id ?_, h.names, h.nextId⟩
  have hchanged : ∀ g? : Option SegmentAccount, (g?.map f).map SegmentAccount.bare =
      (g?.map SegmentAccount.bare).map F := by
    intro g?
    rw [Option.map_map, Option.map_map]
    exact congrArg (g?.map ·) (funext hf)
  rw [hchanged, hchanged, h.segments]

/-- The segments have the same bytes. -/
theorem bytesOf (h : a.Resembles b) (id : SegmentId) : b.bytesOf id = a.bytesOf id := by
  unfold Account.bytesOf
  cases hg : a.segments id with
  | none => rw [h.segments_eq_none hg]
  | some g =>
    obtain ⟨attributes, hg'⟩ := h.of_segment hg
    rw [hg']

/-- The names are the same with a segment left out. -/
theorem namesWithout (h : a.Resembles b) (id : SegmentId) :
    b.namesWithout id = a.namesWithout id := by
  unfold Account.namesWithout
  cases hg : a.segments id with
  | none =>
    rw [h.segments_eq_none hg]
    exact h.names
  | some g =>
    obtain ⟨attributes, hg'⟩ := h.of_segment hg
    simp only [hg', h.names]

/-- A record does the same to both accounts. -/
theorem apply (h : a.Resembles b) (r : Record) : (a.apply r).Resembles (b.apply r) := by
  cases r with
  | create id name values =>
    refine ⟨h.update id rfl, ?_, rfl⟩
    simp only [Account.apply, h.names]
  | append id offset data values =>
    exact h.modify id (F := fun g => g.grown data) fun _ => rfl
  | updateAttributes id values => exact h.modify id (F := fun g => g) fun _ => rfl
  | sealing id length =>
    exact h.modify id (F := fun g => { g with state := .sealed }) fun _ => rfl
  | merge target source sourceLength offset =>
    simp only [Account.apply, h.bytesOf]
    have hgrown := h.modify target (f := fun g => g.grown (a.bytesOf source))
      (F := fun g => g.grown (a.bytesOf source)) fun _ => rfl
    exact hgrown.modify source (F := fun g => g.mergedAway target) fun _ => rfl
  | truncate id offset =>
    exact h.modify id (F := fun g => { g with truncationOffset := offset }) fun _ => rfl
  | delete id => exact ⟨h.update id rfl, h.namesWithout id, h.nextId⟩

/-- What can come next does not depend on attribute values. -/
theorem admits (h : a.Resembles b) {r : Record} (hr : a.Admits r) : b.Admits r := by
  cases r with
  | create id name values => exact ⟨hr.1.trans h.nextId.symm, by rw [h.names, hr.2]⟩
  | append id | updateAttributes id | sealing id | truncate id =>
    obtain ⟨g, hg, hstate⟩ := hr
    obtain ⟨attributes, hg'⟩ := h.of_segment hg
    exact ⟨_, hg', hstate⟩
  | merge target source sourceLength offset =>
    obtain ⟨t, u, ht, hu, hstates⟩ := hr
    obtain ⟨attributes, ht'⟩ := h.of_segment ht
    obtain ⟨attributes', hu'⟩ := h.of_segment hu
    exact ⟨_, _, ht', hu', hstates⟩
  | delete id =>
    obtain ⟨g, hg⟩ := hr
    obtain ⟨attributes, hg'⟩ := h.of_segment hg
    exact ⟨_, hg'⟩

/-- One account admits all records that the other does. -/
theorem admitsAll (h : a.Resembles b) (hrs : a.AdmitsAll rs) : b.AdmitsAll rs := by
  induction rs generalizing a b with
  | nil => trivial
  | cons r rs ih => exact ⟨h.admits hrs.1, ih (h.apply r) hrs.2⟩

/-- The accounts stay so along any records. -/
theorem foldl (h : a.Resembles b) (rs : List Record) :
    (rs.foldl Account.apply a).Resembles (rs.foldl Account.apply b) := by
  induction rs generalizing a b with
  | nil => exact h
  | cons r rs ih => exact ih (h.apply r)

end Resembles

/-- New accounts are told apart by the values found alone. -/
theorem resembles_start (found found' : SegmentId → AttributeId → AttributeValue) :
    (start found).Resembles (start found') := ⟨fun _ => rfl, rfl, rfl⟩

end Account

namespace Record

/-- What a record names of a segment is what it commits a value for. -/
theorem mem_named {r : Record} {id : SegmentId} {x : AttributeId} :
    (id, x) ∈ r.named ↔ x ∈ (r.valuesFor id).map Prod.fst := by
  have hvalues : ∀ (segment : SegmentId) (values : AttributeValues),
      (id, x) ∈ values.map (fun v : AttributeId × AttributeValue => (segment, v.1)) ↔
        x ∈ (if segment = id then values else []).map Prod.fst := by
    intro segment values
    by_cases hid : segment = id
    · simp [hid]
    · simp [hid]
  cases r with
  | create segment name values => exact hvalues segment values
  | append segment offset data values => exact hvalues segment values
  | updateAttributes segment values => exact hvalues segment values
  | _ => simp [named, valuesFor]

/-- An attribute is named by some record exactly if one has a value for it. -/
theorem mem_named_flatMap {rs : List Record} {id : SegmentId} {x : AttributeId} :
    (id, x) ∈ rs.flatMap named ↔ x ∈ (rs.flatMap fun r => r.valuesFor id).map Prod.fst := by
  induction rs with
  | nil => simp
  | cons r rs ih =>
    rw [List.flatMap_cons, List.flatMap_cons, List.mem_append, List.map_append, List.mem_append,
      mem_named, ih]

end Record

namespace Account

variable {rs : List Record} {found found' : SegmentId → AttributeId → AttributeValue}
  {id : SegmentId} {g g' : SegmentAccount} {x : AttributeId}

/-- Unless a segment was merged away, what the records do not name of it is what was found. -/
theorem attributes_of_unnamed (h : (start found).AdmitsAll rs)
    (hg : (after rs found).segments id = some g) (hm : g.state ≠ .merged)
    (hx : (id, x) ∉ rs.flatMap Record.named) : g.attributes x = found id x := by
  rw [attributes_after h (.there hg hm)]
  exact overlaid_of_notMem _ fun hin => hx (Record.mem_named_flatMap.mpr hin)

/-- Unless a segment was merged away, it has the same attribute values where the same were found of
what the records do not name. -/
theorem attributes_eq (h : (start found).AdmitsAll rs)
    (hg : (after rs found).segments id = some g)
    (hg' : (after rs found').segments id = some g') (hm : g.state ≠ .merged)
    (hx : (id, x) ∉ rs.flatMap Record.named → found' id x = found id x) :
    g'.attributes x = g.attributes x := by
  have hresembles := resembles_start found found'
  obtain ⟨attributes, hg₁⟩ := (hresembles.foldl rs).of_segment hg
  obtain rfl := Option.some.inj (hg₁.symm.trans hg')
  rw [attributes_after h (.there hg hm),
    attributes_after (hresembles.admitsAll h) (.there hg' hm)]
  exact overlaid_congr fun hout => hx fun hin => hout (Record.mem_named_flatMap.mp hin)

end Account

namespace Engine

/-- A store that was opened agrees with the account over the attribute store that was there. -/
theorem Opened.agrees_found {s : Engine} {rs : List Record} {left : AttributeStore}
    (h : s.Opened rs left) (hadmits : Account.start.AdmitsAll rs) :
    s.Agrees (.after rs left.valuesOf) := by
  have hresembles := (Account.resembles_start (fun _ => noValues) left.valuesOf).foldl rs
  obtain ⟨store, hagrees⟩ := h.agrees
  refine ⟨fun id => ?_, fun n => (hagrees.names n).trans (congrFun hresembles.names n).symm,
    hagrees.nextId.trans hresembles.nextId.symm, hagrees.numbered, fun id hid => ?_⟩
  · have hshows := hagrees.segment id
    change Entry.Shows store id (s.entries.get? id) _ at hshows
    cases hg : (Account.after rs).segments id with
    | none =>
      rw [hg] at hshows
      have hnone : (Account.after rs left.valuesOf).segments id = none :=
        hresembles.segments_eq_none hg
      rw [hnone]
      generalize s.entries.get? id = e? at hshows
      cases hshows with
      | absent => exact .absent
      | gone own deleted unstored => exact .gone own deleted unstored
    | some g =>
      obtain ⟨attributes, hg'⟩ := hresembles.of_segment hg
      replace hg' : (Account.after rs left.valuesOf).segments id = some { g with attributes } := hg'
      rw [hg] at hshows
      obtain ⟨e, he, hown, hd, hc⟩ := hshows.of_account
      rw [hg', he]
      refine .present hown
        ⟨hd.name, hd.state, hd.mergedInto, hd.length, hd.truncationOffset, hd.data⟩
        ⟨fun hm => ?_, hc.released⟩
      have hvalues : attributes = fun x =>
          if x.isCore ∨ (id, x) ∈ rs.flatMap Record.named then g.attributes x
          else left.value id x := by
        funext x
        split
        · next hx =>
          exact Account.attributes_eq hadmits hg hg' hm fun hout => if_pos (hx.resolve_right hout)
        · next hx =>
          obtain ⟨hx, hout⟩ := not_or.mp hx
          have hall := (Account.resembles_start _ left.valuesOf).admitsAll hadmits
          exact (Account.attributes_of_unnamed hall hg' hm hout).trans (if_neg hx)
      exact hvalues ▸ h.coherent he hg hm
  · rw [Account.after_found]
    funext x
    rw [AttributeStore.valuesOf, AttributeStore.valuesOf, h.fresh id hid x]

variable {s s' : Engine} {rs new : List Record} {rest rest' : Bytes}

/-- Of a segment that was not merged away, what the journal does not name is stored as it was
found. -/
theorem Sound.stored_of_unnamed {found : SegmentId → AttributeId → AttributeValue}
    {earlier : AttributeStore} (h : s.Sound rs rest found)
    (ht : s.Tidy (Record.Storable rs) earlier) {id : SegmentId} {g : SegmentAccount}
    (hg : (Account.after rs found).segments id = some g) (hm : g.state ≠ .merged)
    {x : AttributeId} (hx : x.isCore = false) (hout : (id, x) ∉ rs.flatMap Record.named) :
    s.store.value id x = found id x := by
  obtain ⟨e, he, -, -, hc⟩ := (hg ▸ h.agrees.segment id).of_account
  have hwaits : e.metadata.attributes.unstored.get? x = none := by
    rw [Option.eq_none_iff_forall_ne_some]
    exact fun v hv => hout (ht.waits id e he x v hv).2.2
  have hbacked := (hc.coherent hm).backed x hx
  rw [hwaits, Option.getD_none] at hbacked
  rw [hbacked, Account.attributes_of_unnamed h.admitted hg hm hout]

/-- A store that is opened over the journal of a sound engine, with an attribute store that has of
what the journal does not name what the engine had there, has the segments grown older. -/
theorem Sound.grows {left left' earlier : AttributeStore} (h : s.Sound rs rest left.valuesOf)
    (ht : s.Tidy (Record.Storable rs) earlier) (h' : s'.Sound (rs ++ new) rest' left'.valuesOf)
    (hleft : ∀ id x, x.isCore = false → (id, x) ∉ (rs ++ new).flatMap Record.named →
      left'.value id x = s.store.value id x) :
    (Account.after rs left.valuesOf).Grows (.after (rs ++ new) left'.valuesOf) := by
  have hstart := Account.resembles_start left'.valuesOf left.valuesOf
  have hadmits := hstart.admitsAll h'.admitted
  have hgrows := Account.grows_after hadmits
  refine ⟨(hstart.foldl (rs ++ new)).nextId ▸ hgrows.nextId, fun id g'' hg'' => ?_⟩
  obtain ⟨attributes, hg'⟩ := (hstart.foldl (rs ++ new)).of_segment hg''
  rcases hgrows.segment id _ hg' with ⟨g, hg, hgrow⟩ | hle
  · refine Or.inl ⟨g, hg, hgrow.name, hgrow.state, hgrow.length, hgrow.final,
      hgrow.truncationOffset, hgrow.mergedInto, fun hs hs'' => ?_⟩
    have hm : g''.state ≠ .merged := by
      rw [hs'']
      decide
    rw [← hgrow.attributes hs hs'']
    funext x
    refine Account.attributes_eq hadmits hg' hg'' hm fun hout => ?_
    cases hx : x.isCore with
    | true => rw [AttributeStore.valuesOf, AttributeStore.valuesOf, if_pos hx, if_pos hx]
    | false =>
      have hm' : g.state ≠ .merged := by
        rw [hs]
        decide
      have hout' : (id, x) ∉ rs.flatMap Record.named := fun hin =>
        hout (by rw [List.flatMap_append]; exact List.mem_append_left _ hin)
      rw [← h.stored_of_unnamed ht hg hm' hx hout', ← hleft id x hx hout,
        AttributeStore.valuesOf, hx]
      rfl
  · exact Or.inr hle

end Engine

end Segments
