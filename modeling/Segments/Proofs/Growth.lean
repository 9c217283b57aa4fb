import Mathlib.Logic.Relation
import Segments.Proofs.Account

/-!
# How accounts grow

The records of a journal take each segment through the stages of its life in one direction. Its
length and its lowest readable offset only rise, once it is no longer active the length is final,
and what a merge or a sealing settles stays settled. A number that was given out is never given out
again.
-/

namespace Segments

namespace SegmentState

/-- One stage leads to another, by steps that a segment may take. -/
def Leads (s t : SegmentState) : Prop :=
  Relation.ReflTransGen (fun s t : SegmentState => s.canBecome t = true) s t

/-- The place of a stage in the order of life. -/
def rank : SegmentState → Nat
  | creating => 0
  | active => 1
  | sealed => 2
  | merging => 3
  | merged => 4
  | deleted => 5

/-- The rank tells the stages of life apart. -/
theorem rank_injective {s t : SegmentState} (h : s.rank = t.rank) : s = t := by
  cases s <;> cases t <;> first | rfl | cases h

/-- A step in life raises the rank. -/
theorem rank_lt_of_canBecome {s t : SegmentState} (h : s.canBecome t = true) :
    s.rank < t.rank := by
  cases s <;> cases t <;> first | decide | cases h

/-- A stage leads to none of a lower rank. -/
theorem Leads.rank_le {s t : SegmentState} (h : s.Leads t) : s.rank ≤ t.rank := by
  induction h with
  | refl => exact Nat.le_refl _
  | tail _ hstep ih => exact Nat.le_trans ih (Nat.le_of_lt (rank_lt_of_canBecome hstep))

theorem Leads.refl (s : SegmentState) : s.Leads s := Relation.ReflTransGen.refl

theorem Leads.trans {s t u : SegmentState} (h : s.Leads t) (h' : t.Leads u) : s.Leads u :=
  Relation.ReflTransGen.trans h h'

/-- One step leads on. -/
theorem leads_of_canBecome {s t : SegmentState} (h : s.canBecome t = true) : s.Leads t :=
  Relation.ReflTransGen.single h

theorem sealed_leads_merged : sealed.Leads merged :=
  .trans (leads_of_canBecome (t := merging) rfl) (leads_of_canBecome rfl)

/-- Between two moments at one stage a segment stays at it. -/
theorem Leads.eq_of_between {s t : SegmentState} (h : s.Leads t) (h' : t.Leads s) : t = s :=
  rank_injective (Nat.le_antisymm h'.rank_le h.rank_le)

end SegmentState

namespace SegmentAccount

/-- How a segment grows older. -/
structure Grows (g g' : SegmentAccount) : Prop where
  /-- It keeps its name. -/
  name : g'.name = g.name
  /-- It goes through the stages of life. -/
  state : g.state.Leads g'.state
  /-- The length does not shrink. -/
  length : g.length ≤ g'.length
  /-- Beyond the active stage the length is final. -/
  final : SegmentState.active.rank < g.state.rank → g'.length = g.length
  /-- The lowest readable offset does not sink. -/
  truncationOffset : g.truncationOffset ≤ g'.truncationOffset
  /-- A segment is merged into one other at most. -/
  mergedInto : g.mergedInto.isSome → g'.mergedInto = g.mergedInto
  /-- While it is sealed the attributes stay what they are. -/
  attributes : g.state = .sealed → g'.state = .sealed → g'.attributes = g.attributes

namespace Grows

variable {g g' g'' : SegmentAccount}

/-- A segment grows by nothing. -/
theorem refl (g : SegmentAccount) : g.Grows g :=
  ⟨rfl, .refl _, Nat.le_refl _, fun _ => rfl, Nat.le_refl _, fun _ => rfl, fun _ _ => rfl⟩

/-- A segment grows twice. -/
theorem trans (h : g.Grows g') (h' : g'.Grows g'') : g.Grows g'' where
  name := h'.name.trans h.name
  state := h.state.trans h'.state
  length := Nat.le_trans h.length h'.length
  final hs := (h'.final (Nat.lt_of_lt_of_le hs h.state.rank_le)).trans (h.final hs)
  truncationOffset := Nat.le_trans h.truncationOffset h'.truncationOffset
  mergedInto hm := (h'.mergedInto (by rwa [h.mergedInto hm])).trans (h.mergedInto hm)
  attributes hs hs'' := by
    have hs' : g'.state = .sealed := by
      have hto := h.state
      have hfrom := h'.state
      rw [hs] at hto
      rw [hs''] at hfrom
      exact hto.eq_of_between hfrom
    exact (h'.attributes hs' hs'').trans (h.attributes hs hs')

/-- An active segment grows by bytes and attribute values. -/
theorem of_active (hg : g.state = .active) (hname : g'.name = g.name) (hstate : g'.state = g.state)
    (hlength : g.length ≤ g'.length) (htruncated : g'.truncationOffset = g.truncationOffset)
    (hmerged : g'.mergedInto = g.mergedInto) : g.Grows g' where
  name := hname
  state := hstate ▸ .refl _
  length := hlength
  final hs := by
    rw [hg] at hs
    exact absurd hs (Nat.lt_irrefl _)
  truncationOffset := Nat.le_of_eq htruncated.symm
  mergedInto _ := hmerged
  attributes hs := by
    rw [hg] at hs
    cases hs

end Grows

end SegmentAccount

namespace Account

/-- How an account grows: no segment is changed but in its growing older, and new ones have new
numbers. -/
structure Grows (a a' : Account) : Prop where
  /-- The next number does not sink. -/
  nextId : a.nextId ≤ a'.nextId
  /-- A segment has grown older or has a new number. -/
  segment : ∀ id g', a'.segments id = some g' →
    (∃ g, a.segments id = some g ∧ g.Grows g') ∨ a.nextId ≤ id

variable {a a' a'' : Account}

theorem Grows.refl (a : Account) : a.Grows a :=
  ⟨Nat.le_refl _, fun _ g hg => Or.inl ⟨g, hg, .refl g⟩⟩

theorem Grows.trans (h : a.Grows a') (h' : a'.Grows a'') : a.Grows a'' := by
  refine ⟨Nat.le_trans h.nextId h'.nextId, fun id g'' hg'' => ?_⟩
  rcases h'.segment id g'' hg'' with ⟨g', hg', hgrows'⟩ | hid
  · rcases h.segment id g' hg' with ⟨g, hg, hgrows⟩ | hid
    · exact Or.inl ⟨g, hg, hgrows.trans hgrows'⟩
    · exact Or.inr hid
  · exact Or.inr (Nat.le_trans h.nextId hid)

/-- One segment grows older. -/
theorem grows_modify {id : SegmentId} {f : SegmentAccount → SegmentAccount}
    (hf : ∀ g, a.segments id = some g → g.Grows (f g)) : a.Grows (a.modify id f) := by
  refine ⟨Nat.le_refl _, fun j g' hg' => Or.inl ?_⟩
  by_cases hj : j = id
  · subst hj
    simp only [Account.modify, Function.update_self, Option.map_eq_some_iff] at hg'
    obtain ⟨g, hg, rfl⟩ := hg'
    exact ⟨g, hg, hf g hg⟩
  · simp only [Account.modify, Function.update_of_ne hj] at hg'
    exact ⟨g', hg', .refl g'⟩

/-- The content of a sealed segment goes to the end of an active one. -/
theorem grows_merge (h : a.WellFormed) {target source : SegmentId} {sourceLength offset : Nat}
    (hr : a.Admits (.merge target source sourceLength offset)) :
    a.Grows (a.apply (.merge target source sourceLength offset)) := by
  have hne := ne_of_admits_merge hr
  obtain ⟨t, u, ht, hu, hta, hus, -, -⟩ := hr
  have hgrown : a.Grows (a.modify target fun g => g.grown (a.bytesOf source)) := by
    refine grows_modify fun g hg => ?_
    obtain rfl := Option.some.inj (ht.symm.trans hg)
    exact .of_active hta rfl rfl (Nat.le_add_right _ _) rfl rfl
  refine hgrown.trans (grows_modify fun g hg => ?_)
  have hu' : (a.modify target fun g => g.grown (a.bytesOf source)).segments source = some u :=
    (Function.update_of_ne (Ne.symm hne) _ _).trans hu
  obtain rfl := Option.some.inj (hu'.symm.trans hg)
  refine ⟨rfl, ?_, Nat.le_refl _, fun _ => rfl, Nat.le_refl _, fun hm => ?_,
    fun _ hs => by cases hs⟩
  · rw [hus]
    exact SegmentState.sealed_leads_merged
  · have hmerged := (h.segment source u hu).merged.mp hm
    rw [hus] at hmerged
    cases hmerged

/-- A record that can come next lets the account grow. -/
theorem grows_apply (h : a.WellFormed) {r : Record} (hr : a.Admits r) : a.Grows (a.apply r) := by
  cases r with
  | create id name values =>
    obtain ⟨rfl, -⟩ := hr
    refine ⟨Nat.le_succ _, fun j g' hg' => ?_⟩
    by_cases hj : j = a.nextId
    · exact Or.inr (Nat.le_of_eq hj.symm)
    · simp only [Account.apply, Function.update_of_ne hj] at hg'
      exact Or.inl ⟨g', hg', .refl g'⟩
  | append id offset data values =>
    obtain ⟨g, hg, hactive, -⟩ := hr
    refine grows_modify fun g' hg' => ?_
    obtain rfl := Option.some.inj (hg.symm.trans hg')
    exact .of_active hactive rfl rfl (Nat.le_add_right _ _) rfl rfl
  | updateAttributes id values =>
    obtain ⟨g, hg, hactive⟩ := hr
    refine grows_modify fun g' hg' => ?_
    obtain rfl := Option.some.inj (hg.symm.trans hg')
    exact .of_active hactive rfl rfl (Nat.le_refl _) rfl rfl
  | sealing id length =>
    obtain ⟨g, hg, hactive, -⟩ := hr
    refine grows_modify fun g' hg' => ?_
    obtain rfl := Option.some.inj (hg.symm.trans hg')
    refine ⟨rfl, ?_, Nat.le_refl _, fun _ => rfl, Nat.le_refl _, fun _ => rfl, fun hs => ?_⟩
    · rw [hactive]
      exact SegmentState.leads_of_canBecome rfl
    · rw [hactive] at hs
      cases hs
  | merge target source sourceLength offset => exact grows_merge h hr
  | truncate id offset =>
    obtain ⟨g, hg, -, hrises, -⟩ := hr
    refine grows_modify fun g' hg' => ?_
    obtain rfl := Option.some.inj (hg.symm.trans hg')
    exact ⟨rfl, .refl _, Nat.le_refl _, fun _ => rfl, Nat.le_of_lt hrises, fun _ => rfl,
      fun _ _ => rfl⟩
  | delete id =>
    refine ⟨Nat.le_refl _, fun j g' hg' => ?_⟩
    by_cases hj : j = id
    · simp [Account.apply, hj] at hg'
    · simp only [Account.apply, Function.update_of_ne hj] at hg'
      exact Or.inl ⟨g', hg', .refl g'⟩

/-- Records that can come one after another let the account grow. -/
theorem grows_foldl (h : a.WellFormed) {rs : List Record} (hrs : a.AdmitsAll rs) :
    a.Grows (rs.foldl apply a) := by
  induction rs generalizing a with
  | nil => exact .refl a
  | cons r rs ih => exact (grows_apply h hrs.1).trans (ih (h.apply hrs.1) hrs.2)

/-- The account of some records grows with more of them. -/
theorem grows_after {rs more : List Record} {found : SegmentId → AttributeId → AttributeValue}
    (h : (start found).AdmitsAll (rs ++ more)) :
    (after rs found).Grows (after (rs ++ more) found) := by
  obtain ⟨hrs, hmore⟩ := admitsAll_append.mp h
  rw [after, after, List.foldl_append]
  exact grows_foldl (wellFormed_after hrs) hmore

/-- A segment that is there before and after has grown older. -/
theorem Grows.of_segments (h : a.Grows a') (hw : a.WellFormed) {id : SegmentId}
    {g g' : SegmentAccount} (hg : a.segments id = some g) (hg' : a'.segments id = some g') :
    g.Grows g' := by
  rcases h.segment id g' hg' with ⟨g₀, hg₀, hgrows⟩ | hle
  · obtain rfl := Option.some.inj (hg.symm.trans hg₀)
    exact hgrows
  · exact absurd (hw.numbered id g hg) (Nat.not_lt.mpr hle)

/-- Numbers begin with one. -/
theorem one_le_of_segment {rs : List Record} (h : start.AdmitsAll rs) {id : SegmentId}
    {g : SegmentAccount} (hg : (after rs).segments id = some g) : 1 ≤ id := by
  have hgrows : start.Grows (after rs) := grows_foldl wellFormed_start h
  rcases hgrows.segment id g hg with ⟨g₀, hg₀, -⟩ | hid
  · cases hg₀
  · exact hid

end Account

end Segments
