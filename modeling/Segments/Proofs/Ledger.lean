import Segments.Engine.Commit
import Segments.Proofs.Account

/-!
# What records bring to a segment

A segment gets attribute values and bytes record by record. What it has in the end can be read off
the records without following the account: of each attribute the value that was committed last, and
all bytes that were appended or merged into it, in order.
-/

namespace Segments

/-- A change that brings bytes into a segment. -/
inductive Transfer where
  /-- Bytes are appended. -/
  | append (segment : SegmentId) (data : Bytes)
  /-- All bytes of a segment are appended to another. -/
  | merge (target source : SegmentId)
  deriving DecidableEq, Repr

namespace Transfer

/-- The bytes of all segments after a transfer. -/
def apply (c : SegmentId → Bytes) : Transfer → SegmentId → Bytes
  | append segment data => Function.update c segment (c segment ++ data)
  | merge target source => Function.update c target (c target ++ c source)

/-- What transfers bring into each segment, one after another. -/
def contents (ts : List Transfer) : SegmentId → Bytes := ts.foldl apply fun _ => []

/-- A transfer that comes last is applied last. -/
theorem contents_append (ts : List Transfer) (t? : Option Transfer) :
    contents (ts ++ t?.toList) = t?.toList.foldl apply (contents ts) := by
  simp [contents]

end Transfer

namespace Record

/-- The values that a record commits for a segment. -/
def valuesFor (r : Record) (id : SegmentId) : AttributeValues :=
  match r with
  | .create segment _ values | .append segment _ _ values | .updateAttributes segment values =>
    if segment = id then values else []
  | _ => []

/-- The value that a record commits for an attribute of a segment. -/
def valueFor? (r : Record) (id : SegmentId) (x : AttributeId) : Option AttributeValue :=
  (r.valuesFor id).reverse.lookup x

/-- The value of the last record that names an attribute of a segment. -/
def lastValue (rs : List Record) (id : SegmentId) (x : AttributeId) : AttributeValue :=
  (rs.reverse.findSome? fun r => r.valueFor? id x).getD nullValue

/-- The last record of all has the last word. -/
theorem lastValue_append_singleton (rs : List Record) (r : Record) (id : SegmentId)
    (x : AttributeId) :
    lastValue (rs ++ [r]) id x = (r.valueFor? id x).getD (lastValue rs id x) := by
  unfold lastValue
  rw [List.reverse_append, List.reverse_singleton, List.singleton_append, List.findSome?_cons]
  cases r.valueFor? id x <;> rfl

/-- The transfer that a record stands for. -/
def transfer? : Record → Option Transfer
  | .append segment _ data _ => some (.append segment data)
  | .merge target source _ _ => some (.merge target source)
  | _ => none

/-- The transfers of a list are those of its front and that of its last record. -/
theorem filterMap_transfer?_append (rs : List Record) (r : Record) :
    (rs ++ [r]).filterMap transfer? = rs.filterMap transfer? ++ r.transfer?.toList := by
  rw [List.filterMap_append]
  cases r <;> rfl

end Record

/-- The transfer that a change makes. -/
def Action.transfer? : Action → Option Transfer
  | .append segment data _ _ => some (.append segment data)
  | .merge target source => some (.merge target source)
  | _ => none

/-- The values that were set last are there. -/
theorem overlaid_eq (committed : AttributeId → AttributeValue) (values : AttributeValues)
    (x : AttributeId) :
    overlaid committed values x = (values.reverse.lookup x).getD (committed x) := by
  induction values generalizing committed with
  | nil => rfl
  | cons v values ih =>
    have hover : overlaid committed (v :: values) =
        overlaid (Function.update committed v.1 v.2) values := rfl
    rw [hover, ih, List.reverse_cons, List.lookup_append]
    cases values.reverse.lookup x with
    | some w => rfl
    | none =>
      rw [Option.getD_none, Option.none_or, List.lookup_cons, List.lookup_nil,
        Function.update_apply]
      by_cases hx : x = v.1
      · simp [hx]
      · have hne : (x == v.1) = false := by simpa using hx
        simp [hx, hne]

/-- Whatever is not set stays, and what is set does not depend on what was there. -/
theorem overlaid_congr {committed committed' : AttributeId → AttributeValue}
    {values : AttributeValues} {x : AttributeId}
    (h : x ∉ values.map Prod.fst → committed' x = committed x) :
    overlaid committed' values x = overlaid committed values x := by
  rw [overlaid_eq, overlaid_eq]
  cases hv : values.reverse.lookup x with
  | some v => rfl
  | none =>
    refine h fun hx => ?_
    obtain ⟨v, hv', rfl⟩ := List.mem_map.mp hx
    have hne := List.lookup_eq_none_iff.mp hv v (List.mem_reverse.mpr hv')
    simp at hne

/-- Values of other attributes stay. -/
theorem overlaid_of_notMem (committed : AttributeId → AttributeValue) {values : AttributeValues}
    {x : AttributeId} (h : x ∉ values.map Prod.fst) :
    overlaid committed values x = committed x := by
  induction values generalizing committed with
  | nil => rfl
  | cons v values ih =>
    rw [List.map_cons, List.mem_cons, not_or] at h
    exact (ih (Function.update committed v.1 v.2) h.2).trans (Function.update_of_ne h.1 _ _)

namespace Account

variable {a : Account} {r : Record} {id : SegmentId} {g : SegmentAccount}

/-- What a segment has that is there and was not merged away, or that is yet to come. -/
inductive Has (a : Account) (id : SegmentId) (g : SegmentAccount) : Prop where
  /-- The segment is there. -/
  | there (account : a.segments id = some g) (unmerged : g.state ≠ .merged) : Has a id g
  /-- The segment is yet to come. -/
  | ahead (fresh : a.nextId ≤ id) (empty : g = .created g.name (a.found id)) : Has a id g

/-- The bytes that a record brings into a segment. -/
def brought (a : Account) (r : Record) (id : SegmentId) : Bytes :=
  match r with
  | .append segment _ data _ => if segment = id then data else []
  | .merge target source _ _ => if target = id then a.bytesOf source else []
  | _ => []

/-- A segment of a changed account, before the change. -/
theorem segments_modify_eq_some {j : SegmentId} {f : SegmentAccount → SegmentAccount}
    (h : (a.modify id f).segments j = some g) :
    ∃ g', a.segments j = some g' ∧ g = if j = id then f g' else g' := by
  rw [modify] at h
  simp only [Function.update_apply] at h
  split at h
  · next hj =>
    obtain ⟨g', hg', rfl⟩ := Option.map_eq_some_iff.mp h
    exact ⟨g', hj ▸ hg', (if_pos hj).symm⟩
  · next hj => exact ⟨g, h, (if_neg hj).symm⟩

/-- The segment that a record changes is not one to come. -/
theorem Admits.segment_lt (hr : a.Admits r) (hw : a.WellFormed) :
    r.segment < (a.apply r).nextId := by
  cases r with
  | create segment name values => exact Nat.lt_succ_self segment
  | merge target source sourceLength offset =>
    obtain ⟨t, u, ht, -⟩ := hr
    exact hw.numbered target t ht
  | append segment | updateAttributes segment | sealing segment | truncate segment
  | delete segment =>
    obtain ⟨g, hg⟩ := hr
    exact hw.numbered segment g (by first | exact hg | exact hg.1)

/-- A record takes no number back. -/
theorem Admits.nextId_le (hr : a.Admits r) : a.nextId ≤ (a.apply r).nextId := by
  cases r with
  | create segment name values =>
    obtain ⟨rfl, -⟩ := hr
    exact Nat.le_succ a.nextId
  | _ => exact Nat.le_refl a.nextId

/-- A record has no values for another segment. -/
theorem valuesFor_of_ne (h : r.segment ≠ id) : r.valuesFor id = [] := by
  cases r <;> first | rfl | exact if_neg h

/-- A record brings no bytes into another segment. -/
theorem brought_of_ne (h : r.segment ≠ id) : a.brought r id = [] := by
  cases r <;> first | rfl | exact if_neg h

/-- What a segment has after a change of the segment that a record names. -/
theorem Has.before_modify {f : SegmentAccount → SegmentAccount}
    (hg : (a.modify r.segment f).segments id = some g) (hm : g.state ≠ .merged)
    (hf : ∀ g', a.segments r.segment = some g' → (f g').state ≠ .merged → g'.state ≠ .merged ∧
      (f g').attributes = overlaid g'.attributes (r.valuesFor r.segment) ∧
      (f g').data = g'.data ++ a.brought r r.segment) :
    ∃ g', a.Has id g' ∧ g.attributes = overlaid g'.attributes (r.valuesFor id) ∧
      g.data = g'.data ++ a.brought r id := by
  obtain ⟨g', hg', rfl⟩ := segments_modify_eq_some hg
  by_cases hid : id = r.segment
  · subst hid
    rw [if_pos rfl] at hm ⊢
    obtain ⟨hm', hattributes, hdata⟩ := hf g' hg' hm
    exact ⟨g', .there hg' hm', hattributes, hdata⟩
  · rw [if_neg hid] at hm ⊢
    refine ⟨g', .there hg' hm, ?_, ?_⟩
    · rw [valuesFor_of_ne (Ne.symm hid)]
      rfl
    · rw [brought_of_ne (Ne.symm hid), List.append_nil]

/-- What a segment has after a record is what it had before and what the record brings to it. -/
theorem Has.before (h : (a.apply r).Has id g) (hw : a.WellFormed) (hr : a.Admits r) :
    ∃ g', a.Has id g' ∧ g.attributes = overlaid g'.attributes (r.valuesFor id) ∧
      g.data = g'.data ++ a.brought r id := by
  -- a segment that the record does not name has what it had
  have hsame : r.segment ≠ id → a.Has id g → ∃ g', a.Has id g' ∧
      g.attributes = overlaid g'.attributes (r.valuesFor id) ∧
        g.data = g'.data ++ a.brought r id := by
    intro hne hhas
    refine ⟨g, hhas, ?_, ?_⟩
    · rw [valuesFor_of_ne hne]
      rfl
    · rw [brought_of_ne hne, List.append_nil]
  cases h with
  | ahead fresh empty =>
    rw [apply_found] at empty
    refine hsame (fun hid => ?_) (.ahead (Nat.le_trans hr.nextId_le fresh) empty)
    exact Nat.lt_irrefl id (Nat.lt_of_lt_of_le (hid ▸ hr.segment_lt hw) fresh)
  | there hg hm =>
    cases r with
    | create segment name values =>
      obtain ⟨rfl, -⟩ := hr
      by_cases hid : id = a.nextId
      · subst hid
        simp only [Account.apply, Function.update_self, Option.some.injEq] at hg
        subst hg
        refine ⟨.created name (a.found a.nextId), .ahead (Nat.le_refl _) rfl, ?_, rfl⟩
        rw [Record.valuesFor, if_pos rfl]
        rfl
      · simp only [Account.apply, Function.update_of_ne hid] at hg
        exact hsame (Ne.symm hid) (.there hg hm)
    | append segment offset data values =>
      exact before_modify hg hm fun g' _ hm' =>
        ⟨hm', congrArg (overlaid g'.attributes) (if_pos rfl).symm,
          congrArg (g'.data ++ ·) (if_pos rfl).symm⟩
    | updateAttributes segment values =>
      exact before_modify hg hm fun g' _ hm' =>
        ⟨hm', congrArg (overlaid g'.attributes) (if_pos rfl).symm, (List.append_nil _).symm⟩
    | sealing segment length =>
      obtain ⟨g₀, hg₀, hactive, -⟩ := hr
      refine before_modify hg hm fun g' hg' _ => ⟨?_, rfl, (List.append_nil _).symm⟩
      rw [Option.some.inj (hg'.symm.trans hg₀), hactive]
      decide
    | merge target source sourceLength offset =>
      obtain ⟨g₁, hg₁, rfl⟩ := segments_modify_eq_some hg
      have hid : id ≠ source := by
        rintro rfl
        rw [if_pos rfl] at hm
        exact hm rfl
      rw [if_neg hid] at hm ⊢
      exact before_modify hg₁ hm fun g' _ hm' =>
        ⟨hm', rfl, congrArg (g'.data ++ ·) (if_pos rfl).symm⟩
    | truncate segment offset =>
      exact before_modify hg hm fun g' _ hm' => ⟨hm', rfl, (List.append_nil _).symm⟩
    | delete segment =>
      have hid : id ≠ segment := by
        rintro rfl
        simp [Account.apply] at hg
      simp only [Account.apply, Function.update_of_ne hid] at hg
      exact hsame (Ne.symm hid) (.there hg hm)

/-- What records bring to the attributes of a segment, one after another. -/
theorem Has.attributes_foldl (hw : a.WellFormed) {rs : List Record} (hrs : a.AdmitsAll rs)
    (h : (rs.foldl Account.apply a).Has id g) : ∃ g', a.Has id g' ∧
      g.attributes = overlaid g'.attributes (rs.flatMap fun r => r.valuesFor id) := by
  induction rs generalizing a with
  | nil => exact ⟨g, h, rfl⟩
  | cons r rs ih =>
    obtain ⟨g₁, hg₁, hlater⟩ := ih (hw.apply hrs.1) hrs.2 h
    obtain ⟨g', hg', hfirst, -⟩ := hg₁.before hw hrs.1
    refine ⟨g', hg', ?_⟩
    rw [hlater, hfirst, List.flatMap_cons, overlaid, overlaid, overlaid, List.foldl_append]

/-- The attributes of a segment are those that were found, and what records brought. -/
theorem attributes_after {rs : List Record} {found : SegmentId → AttributeId → AttributeValue}
    (h : (start found).AdmitsAll rs) (hg : (after rs found).Has id g) :
    g.attributes = overlaid (found id) (rs.flatMap fun r => r.valuesFor id) := by
  obtain ⟨g', hg', hattributes⟩ := hg.attributes_foldl wellFormed_start h
  cases hg' with
  | there account _ => cases account
  | ahead _ empty =>
    rw [hattributes, empty]
    rfl

/-- What an account says is what some records brought. -/
structure Sums (a : Account) (rs : List Record) : Prop where
  /-- The value of each attribute is the last one. -/
  values : ∀ id g, a.Has id g → ∀ x, g.attributes x = Record.lastValue rs id x
  /-- The bytes are all that were appended and merged. -/
  data : ∀ id g, a.Has id g → g.data = Transfer.contents (rs.filterMap Record.transfer?) id

/-- Nothing was brought into a new account. -/
theorem sums_start : start.Sums [] := by
  have hhas : ∀ id g, start.Has id g → g = .created g.name := by
    intro id g h
    cases h with
    | there account _ => cases account
    | ahead _ empty => exact empty
  refine ⟨fun id g h x => ?_, fun id g h => ?_⟩
  · rw [hhas id g h]
    rfl
  · rw [hhas id g h]
    rfl

/-- A transfer brings into each segment what its record does. -/
theorem Sums.contents_append {rs : List Record} (h : a.Sums rs) (hr : a.Admits r)
    (id : SegmentId) : Transfer.contents ((rs ++ [r]).filterMap Record.transfer?) id =
      Transfer.contents (rs.filterMap Record.transfer?) id ++ a.brought r id := by
  rw [Record.filterMap_transfer?_append, Transfer.contents_append]
  have hupdate : ∀ (c : SegmentId → Bytes) (segment : SegmentId) (data : Bytes),
      Function.update c segment (c segment ++ data) id =
        c id ++ if segment = id then data else [] := by
    intro c segment data
    by_cases hid : segment = id
    · rw [hid, Function.update_self, if_pos rfl]
    · rw [Function.update_of_ne (Ne.symm hid), if_neg hid, List.append_nil]
  cases r with
  | append segment offset data values => exact hupdate _ segment data
  | merge target source sourceLength offset =>
    obtain ⟨t, u, -, hu, -, hsealed, -⟩ := hr
    have hbytes : a.bytesOf source = Transfer.contents (rs.filterMap Record.transfer?) source := by
      rw [← h.data source u (.there hu (by rw [hsealed]; decide)), bytesOf, hu]
    rw [brought, hbytes]
    exact hupdate _ target _
  | _ => exact (List.append_nil _).symm

/-- A record that comes next adds what it brings. -/
theorem Sums.apply {rs : List Record} (h : a.Sums rs) (hw : a.WellFormed) (hr : a.Admits r) :
    (a.apply r).Sums (rs ++ [r]) := by
  refine ⟨fun id g hg x => ?_, fun id g hg => ?_⟩
  · obtain ⟨g', hg', hattributes, -⟩ := hg.before hw hr
    rw [hattributes, overlaid_eq, h.values id g' hg' x, Record.lastValue_append_singleton]
    rfl
  · obtain ⟨g', hg', -, hdata⟩ := hg.before hw hr
    rw [hdata, h.data id g' hg', h.contents_append hr]

/-- What an account says stays what the records brought, for more of them. -/
theorem Sums.foldl {rs : List Record} (h : a.Sums rs) (hw : a.WellFormed) {more : List Record}
    (hmore : a.AdmitsAll more) : (more.foldl Account.apply a).Sums (rs ++ more) := by
  induction more generalizing a rs with
  | nil => rwa [List.append_nil]
  | cons r more ih =>
    have hall := ih (h.apply hw hmore.1) (hw.apply hmore.1) hmore.2
    rwa [List.append_assoc] at hall

/-- The account of records that came one after another has what they brought. -/
theorem sums_after {rs : List Record} (h : start.AdmitsAll rs) : (after rs).Sums rs :=
  sums_start.foldl wellFormed_start h

end Account

end Segments
