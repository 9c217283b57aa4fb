import Segments.Proofs.Acknowledged
import Segments.Proofs.Growth
import Segments.Proofs.History

/-!
# What holds of an open store at every moment

After any history the names of a store stand for different live segments, the fields of each of
these fit together, readers are told the present tails, and no more extended values are resident
than the configuration allows. Numbers are given out one after another, by creations that are
acknowledged and by reopenings that find a creation in the journal, and none is given out twice.
-/

namespace Segments

/-- The number that a record gives out. -/
def Record.created? : Record → Option SegmentId
  | .create id _ _ => some id
  | _ => none

namespace Account

variable {a : Account}

/-- Records that can come one after another give out the numbers in order. -/
theorem created_foldl (h : a.WellFormed) {rs : List Record} (hrs : a.AdmitsAll rs) :
    rs.filterMap Record.created? =
      List.range' a.nextId ((rs.foldl apply a).nextId - a.nextId) := by
  induction rs generalizing a with
  | nil => simp
  | cons r rs ih =>
    obtain ⟨hr, hrs⟩ := hrs
    have hrest := ih (h.apply hr) hrs
    rw [List.foldl_cons, List.filterMap_cons]
    cases r with
    | create id name values =>
      obtain ⟨rfl, hname⟩ := hr
      have hnext : (a.apply (.create a.nextId name values)).nextId = a.nextId + 1 := rfl
      have hle := (grows_foldl (h.create hname values) hrs).nextId
      rw [hnext] at hle hrest
      obtain ⟨k, hk⟩ := Nat.exists_eq_add_of_le hle
      have hone : a.nextId + 1 + k - a.nextId = k + 1 := by
        rw [Nat.add_assoc, Nat.add_sub_cancel_left, Nat.add_comm]
      have htwo : a.nextId + 1 + k - (a.nextId + 1) = k := Nat.add_sub_cancel_left ..
      rw [hk, htwo] at hrest
      simp only [Record.created?, hrest, hk, hone, List.range'_succ]
    | _ => exact hrest

/-- The numbers that the records of a journal give out are all those below the next one. -/
theorem created_after {rs : List Record} (h : start.AdmitsAll rs) :
    rs.filterMap Record.created? = List.range' 1 ((after rs).nextId - 1) :=
  created_foldl wellFormed_start h

end Account

namespace Traffic

/-- The numbers that are given out when something happens: that of a segment whose creation is
acknowledged, and that of a segment that is there after a reopening and had no entry before. -/
def assigned (t : Traffic) (x : Stride) : List SegmentId :=
  match x with
  | .moved m =>
    match t.acknowledges m with
    | some (.create name _) => ((t.step m).engine.names.get? name).toList
    | _ => []
  | .reopened .. =>
    (t.stride x).engine.entries.keys.filter fun id =>
      ((t.stride x).engine.live? id).isSome && !t.engine.entries.contains id

/-- The numbers that are given out in the course of a history. -/
def allAssigned (t : Traffic) : List Stride → List SegmentId
  | [] => []
  | x :: strides => t.assigned x ++ (t.stride x).allAssigned strides

variable {t : Traffic} {rs new : List Record} {rest rest' : Bytes} {x : Stride}

/-- A move gives out the number of the creation that it commits. -/
theorem assigned_moved {m : Move} (h : (t.step m).engine.Traced (rs ++ new) rest')
    (hc : t.Commits m new) : t.assigned (.moved m) = new.filterMap Record.created? := by
  unfold assigned
  cases hc.acknowledges with
  | nothing idle =>
    simp only
    split
    · next name updates ha =>
      obtain ⟨s, answer, -, hidle⟩ := idle _ ha
      cases Engine.idles_of_propose_eq hidle
    · rfl
  | @change s action record ha alike proposes =>
    simp only [ha]
    cases proposes with
    | @create name updates values free evaluated =>
      have hname := h.outlines.names name
      rw [Account.after_append_singleton] at hname
      simp [hname, Account.apply, Record.created?]
    | _ => rfl

/-- The numbers given out by records that were added to a journal. -/
theorem mem_created {id : SegmentId} (h : Account.start.AdmitsAll (rs ++ new)) :
    id ∈ new.filterMap Record.created? ↔
      (Account.after rs).nextId ≤ id ∧ id < (Account.after (rs ++ new)).nextId := by
  obtain ⟨hrs, hnew⟩ := Account.admitsAll_append.mp h
  have hle := (Account.grows_after h).nextId
  have hfold : new.foldl Account.apply (Account.after rs) = Account.after (rs ++ new) := by
    rw [Account.after, Account.after, List.foldl_append]
  rw [Account.created_foldl (Account.wellFormed_after hrs) hnew, hfold, List.mem_range'_1,
    Nat.add_sub_of_le hle]

/-- There are segments with new numbers after a reopening exactly where the journal has given out
more. -/
theorem mem_assigned_reopened {config : Config} {left : AttributeContents} {clock : AttributeValue}
    (h : t.engine.Traced rs rest)
    (h' : (t.stride (.reopened config left clock)).engine.Traced (rs ++ new) rest')
    (hnew : new.length ≤ 1) (id : SegmentId) :
    id ∈ t.assigned (.reopened config left clock) ↔ id ∈ new.filterMap Record.created? := by
  rw [mem_created h'.admitted, assigned, List.mem_filter, Table.mem_keys_iff,
    Table.contains_iff_get?, Bool.and_eq_true, Bool.not_eq_true']
  constructor
  · rintro ⟨-, hlive, hnone⟩
    obtain ⟨e, he⟩ := Option.isSome_iff_exists.mp hlive
    obtain ⟨g', hg', -⟩ := h'.outlines.of_live he
    refine ⟨?_, h'.wellFormed.numbered id g' hg'⟩
    rcases (Account.grows_after h'.admitted).segment id g' hg' with ⟨g, hg, -⟩ | hle
    · obtain ⟨e₀, he₀, -⟩ := h.outlines.of_account hg
      simp [Table.contains, he₀] at hnone
    · exact hle
  · intro hid
    -- the one record that the journal has more is the creation of this segment
    obtain ⟨r, hr, hcreated⟩ := List.mem_filterMap.mp ((mem_created h'.admitted).mpr hid)
    obtain ⟨r', rfl⟩ := List.length_eq_one_iff.mp
      (Nat.le_antisymm hnew (List.length_pos_of_mem hr))
    obtain rfl := List.mem_singleton.mp hr
    obtain ⟨name, values, rfl⟩ : ∃ name values, r = .create id name values := by
      cases r with
      | create j name values => exact ⟨name, values, by rw [Option.some.inj hcreated]⟩
      | _ => cases hcreated
    have hthere : (Account.after (rs ++ [.create id name values])).segments id =
        some ((SegmentAccount.created name ((Account.after rs).found id)).taking values) := by
      rw [Account.after_append_singleton]
      simp [Account.apply]
    obtain ⟨e, hl, he, -⟩ := h'.outlines.live h'.wellFormed hthere
    have hnone : t.engine.entries.get? id = none := by
      rw [Option.eq_none_iff_forall_ne_some]
      intro e₀ he₀
      have hlt := h.outlines.numbered he₀
      rw [h.outlines.nextId] at hlt
      exact absurd hlt (Nat.not_lt.mpr hid.1)
    exact ⟨⟨e, he⟩, by rw [hl]; rfl, by simp [Table.contains, hnone]⟩

/-- Whatever happens gives out the numbers that the journal gives out. -/
theorem assigned_perm (h : t.engine.Traced rs rest)
    (h' : (t.stride x).engine.Traced (rs ++ new) rest') (hb : t.Brings x new) :
    (t.assigned x).Perm (new.filterMap Record.created?) := by
  cases x with
  | moved m => rw [assigned_moved h' hb]
  | reopened config left clock =>
    refine (List.perm_ext_iff_of_nodup ?_ ?_).mpr (mem_assigned_reopened h h' hb)
    · exact (Table.nodup _).filter _
    · obtain ⟨hrs, hnew⟩ := Account.admitsAll_append.mp h'.admitted
      rw [Account.created_foldl (Account.wellFormed_after hrs) hnew]
      exact List.nodup_range'

/-- A history gives out the numbers that the journal gives out in its course. -/
theorem traced_allAssigned (h : t.engine.Traced rs rest) (strides : List Stride) :
    ∃ new rest', (t.along strides).engine.Traced (rs ++ new) rest' ∧
      (t.allAssigned strides).Perm (new.filterMap Record.created?) := by
  induction strides generalizing t rs rest with
  | nil => exact ⟨[], rest, by rwa [List.append_nil], .refl _⟩
  | cons x strides ih =>
    obtain ⟨new, rest₁, hstep, hbrings⟩ := traced_stride h x
    obtain ⟨more, rest₂, hlater, hperm⟩ := ih hstep
    refine ⟨new ++ more, rest₂, by rwa [← List.append_assoc], ?_⟩
    rw [List.filterMap_append]
    exact (assigned_perm h hstep hbrings).append hperm

/-- After any history names and entries fit together and all entries are in order. The numbers given
out so far differ and are below the next one, and every live segment has one of them. -/
theorem invariant_along (config : Config) (logged : Bool) (clock : AttributeValue)
    (strides : List Stride) :
    let t := start config logged clock
    let s := (t.along strides).engine
    Consistent s.entries s.names ∧
      (∀ id e, s.entries.get? id = some e → e.InOrder s.config.maxCachedAttributes) ∧
      (t.allAssigned strides).Nodup ∧
      (∀ id ∈ t.allAssigned strides, id < s.nextId) ∧
      ∀ id e, s.live? id = some e → id ∈ t.allAssigned strides := by
  intro t s
  obtain ⟨rs, rest, htraced, hperm⟩ := traced_allAssigned (traced_start config logged clock) strides
  rw [List.nil_append] at htraced
  rw [Account.created_after htraced.admitted] at hperm
  have hassigned (id : SegmentId) :
      id ∈ t.allAssigned strides ↔ 1 ≤ id ∧ id < (Account.after rs).nextId := by
    have hone : 1 ≤ (Account.after rs).nextId :=
      (Account.grows_foldl Account.wellFormed_start htraced.admitted).nextId
    rw [hperm.mem_iff, List.mem_range'_1, Nat.add_sub_of_le hone]
  refine ⟨htraced.outlines.consistent htraced.wellFormed, htraced.inOrder,
    hperm.nodup_iff.mpr List.nodup_range', fun id hid => ?_, fun id e he => ?_⟩
  · rw [htraced.outlines.nextId]
    exact ((hassigned id).mp hid).2
  · obtain ⟨g, hg, -⟩ := htraced.outlines.of_live he
    exact (hassigned id).mpr
      ⟨Account.one_le_of_segment htraced.admitted hg, htraced.wellFormed.numbered id g hg⟩

end Traffic

end Segments
