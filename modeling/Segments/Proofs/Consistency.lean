import Segments.Proofs.Recovery

/-!
# Consistency of an opened store

A store is consistent when its names stand for different live segments and the fields of each of
these fit together. Replay refuses most records that would break this, but leaves out four
checks: that the number of a created segment is free, that a sealed segment was not merged away,
that a merged segment still has its bytes, and, where it goes into one that was merged away itself,
that the sum of their lengths is a number and does not go on from zero. What passes these keeps the
store consistent, and the first record that does not makes it inconsistent, without an error.
-/

namespace Segments

/-- The fields of a segment fit together. -/
structure Entry.Fits (e : Entry) : Prop where
  /-- No more is cut off than is there. -/
  bounded : e.metadata.truncationOffset ≤ e.metadata.length
  /-- A segment has as many bytes as it is long, unless it was merged away. -/
  sized : e.metadata.state ≠ .merged → e.data.length = e.metadata.length
  /-- Exactly a segment that was merged away belongs to another. -/
  merged : e.metadata.mergedInto.isSome ↔ e.metadata.state = .merged

/-- Names and entries fit together. A deleted entry counts as none. -/
structure Consistent (entries : Table SegmentId Entry) (names : Table String SegmentId) :
    Prop where
  /-- No segment has two names. -/
  injective : ∀ n n' id, names.get? n = some id → names.get? n' = some id → n = n'
  /-- A name stands for a live segment that bears the name. -/
  named : ∀ n id, names.get? n = some id →
    ∃ e, entries.get? id = some e ∧ e.metadata.state ≠ .deleted ∧ e.metadata.name = n
  /-- An entry bears the number that it is found by. -/
  numbered : ∀ id e, entries.get? id = some e → e.metadata.id = id
  /-- The fields of each live segment fit together. -/
  fits : ∀ id e, entries.get? id = some e → e.metadata.state ≠ .deleted → e.Fits

namespace Consistent

variable {entries : Table SegmentId Entry} {names : Table String SegmentId} {id : SegmentId}
  {e c : Entry}

theorem empty : Consistent .empty .empty := by
  constructor <;> simp

/-- An entry takes the place of one with the same name. -/
theorem replace (h : Consistent entries names) (he : entries.get? id = some e)
    (hid : c.metadata.id = e.metadata.id) (hname : c.metadata.name = e.metadata.name)
    (hlive : c.metadata.state ≠ .deleted) (hfits : c.Fits) :
    Consistent (entries.insert id c) names := by
  refine ⟨h.injective, fun n j hn => ?_, fun j d hd => ?_, fun j d hd hdl => ?_⟩
  · obtain ⟨d, hd, hdl, hdn⟩ := h.named n j hn
    rw [Table.get?_insert]
    by_cases hj : j = id
    · subst hj
      obtain rfl := Option.some.inj (he.symm.trans hd)
      exact ⟨c, if_pos rfl, hlive, hname.trans hdn⟩
    · exact ⟨d, by rw [if_neg hj, hd], hdl, hdn⟩
  · rw [Table.get?_insert] at hd
    split at hd
    · next hj => rw [← Option.some.inj hd, hid, h.numbered id e he, hj]
    · exact h.numbered j d hd
  · rw [Table.get?_insert] at hd
    split at hd
    · rwa [← Option.some.inj hd]
    · exact h.fits j d hd hdl

/-- Whether a live entry may take the place of one with the same name is up to its own fields. -/
theorem replace_iff (h : Consistent entries names) (he : entries.get? id = some e)
    (hid : c.metadata.id = e.metadata.id) (hname : c.metadata.name = e.metadata.name)
    (hlive : c.metadata.state ≠ .deleted) :
    Consistent (entries.insert id c) names ↔ c.Fits :=
  ⟨fun h' => h'.fits id c (by rw [Table.get?_insert, if_pos rfl]) hlive,
    h.replace he hid hname hlive⟩

/-- A name that is new may be given to an entry if no other name stands for its number. -/
theorem insert_iff (h : Consistent entries names) {name : String} (hname : names.get? name = none)
    (hid : e.metadata.id = id) (hbears : e.metadata.name = name)
    (hlive : e.metadata.state ≠ .deleted) (hfits : e.Fits) :
    Consistent (entries.insert id e) (names.insert name id) ↔ id ∉ names.values := by
  have hvalues : id ∈ names.values ↔ ∃ n, names.get? n = some id := by
    simp only [Table.values, List.mem_map, Prod.exists, exists_eq_right,
      Table.get?_eq_some_iff_mem]
  rw [hvalues, not_exists]
  constructor
  · intro h' n hn
    have hne : n ≠ name := fun hn' => by rw [hn', hname] at hn; cases hn
    refine hne (h'.injective n name id ?_ ?_)
    · rw [Table.get?_insert, if_neg hne, hn]
    · rw [Table.get?_insert, if_pos rfl]
  · intro hfree
    refine ⟨fun n n' j hn hn' => ?_, fun n j hn => ?_, fun j d hd => ?_, fun j d hd hdl => ?_⟩
    · rw [Table.get?_insert] at hn hn'
      split at hn <;> split at hn'
      · next h1 h2 => rw [h1, h2]
      · cases hn
        exact absurd hn' (hfree n')
      · cases hn'
        exact absurd hn (hfree n)
      · exact h.injective n n' j hn hn'
    · rw [Table.get?_insert] at hn
      rw [Table.get?_insert]
      split at hn
      · next hn' =>
        cases hn
        exact ⟨e, if_pos rfl, hlive, hbears.trans hn'.symm⟩
      · have hj : j ≠ id := fun hj => hfree n (hj ▸ hn)
        rw [if_neg hj]
        exact h.named n j hn
    · rw [Table.get?_insert] at hd
      split at hd
      · next hj => rw [← Option.some.inj hd, hid, hj]
      · exact h.numbered j d hd
    · rw [Table.get?_insert] at hd
      split at hd
      · rwa [← Option.some.inj hd]
      · exact h.fits j d hd hdl

/-- A segment goes together with its name. -/
theorem erase (h : Consistent entries names) (he : entries.get? id = some e)
    (hid : c.metadata.id = e.metadata.id) (hdeleted : c.metadata.state = .deleted) :
    Consistent (entries.insert id c) (names.erase e.metadata.name) := by
  refine ⟨fun n n' j hn hn' => ?_, fun n j hn => ?_, fun j d hd => ?_, fun j d hd hdl => ?_⟩
  · rw [Table.get?_erase] at hn hn'
    split at hn
    · cases hn
    · split at hn'
      · cases hn'
      · exact h.injective n n' j hn hn'
  · rw [Table.get?_erase] at hn
    split at hn
    · cases hn
    · next hne =>
      obtain ⟨d, hd, hdl, hdn⟩ := h.named n j hn
      have hj : j ≠ id := by
        rintro rfl
        obtain rfl := Option.some.inj (he.symm.trans hd)
        exact hne hdn.symm
      exact ⟨d, by rw [Table.get?_insert, if_neg hj, hd], hdl, hdn⟩
  · rw [Table.get?_insert] at hd
    split at hd
    · next hj => rw [← Option.some.inj hd, hid, h.numbered id e he, hj]
    · exact h.numbered j d hd
  · rw [Table.get?_insert] at hd
    split at hd
    · rw [← Option.some.inj hd] at hdl
      exact absurd hdeleted hdl
    · exact h.fits j d hd hdl

/-- Telling readers the tails changes nothing of this. -/
theorem publish (h : Consistent entries names) {published : Table SegmentId Entry}
    (hp : ∀ id, published.get? id = (entries.get? id).map Entry.publish) :
    Consistent published names := by
  refine ⟨h.injective, fun n id hn => ?_, fun id e he => ?_, fun id e he hlive => ?_⟩
  · obtain ⟨e, he, hlive, hname⟩ := h.named n id hn
    exact ⟨e.publish, by rw [hp, he]; rfl, hlive, hname⟩
  · rw [hp] at he
    obtain ⟨c, hc, rfl⟩ := Option.map_eq_some_iff.mp he
    exact h.numbered id c hc
  · rw [hp] at he
    obtain ⟨c, hc, rfl⟩ := Option.map_eq_some_iff.mp he
    have hfits := h.fits id c hc hlive
    exact ⟨hfits.bounded, hfits.sized, hfits.merged⟩

end Consistent

namespace Replayed

/-- Whether a record passes the checks that replay leaves out. -/
def Suits (r : Replayed) : Record → Prop
  | .create id _ _ => id ∉ r.names.values
  | .sealing id _ => ∀ e ∈ r.entries.get? id, e.metadata.state ≠ .merged
  | .merge target source count _ => ∀ t ∈ r.entries.get? target, ∀ s ∈ r.entries.get? source,
    if t.metadata.state = .merged then
      t.metadata.truncationOffset ≤ (grown t (s.data.take count) count).metadata.length
    else s.metadata.length ≤ s.data.length
  | _ => True

instance (r : Replayed) : DecidablePred r.Suits := fun record => by
  cases record <;> unfold Suits <;> infer_instance

/-- Whether each record passes the left-out checks where it stands. -/
def SuitsAll (r : Replayed) : List Record → Prop
  | [] => True
  | record :: rest => r.Suits record ∧
    match r.step record with
    | .ok r' => r'.SuitsAll rest
    | .error _ => True

instance decidableSuitsAll : (r : Replayed) → (rs : List Record) → Decidable (r.SuitsAll rs)
  | _, [] => isTrue trivial
  | r, record :: rest =>
    match h : r.step record with
    | .ok r' =>
      have := decidableSuitsAll r' rest
      decidable_of_iff (r.Suits record ∧ r'.SuitsAll rest) (by simp only [SuitsAll, h])
    | .error _ => decidable_of_iff (r.Suits record) (by simp only [SuitsAll, h, and_true])

variable {r r' : Replayed} {id : SegmentId} {e c : Entry}

/-- Attribute values have no part in what must fit together. -/
theorem fits_withCore {values : AttributeValues} :
    ({ e with metadata := withCore e.metadata values } : Entry).Fits ↔ e.Fits :=
  ⟨fun h => ⟨h.bounded, h.sized, h.merged⟩, fun h => ⟨h.bounded, h.sized, h.merged⟩⟩

/-- An entry that grows still fits together exactly if it has the bytes by which it grows, or, as it
was merged away and has none, its new length still covers what was cut off. -/
theorem fits_grown_iff (h : e.Fits) {data : Bytes} {count : Nat} (hle : data.length ≤ count) :
    (grown e data count).Fits ↔ if e.metadata.state = .merged
      then e.metadata.truncationOffset ≤ (grown e data count).metadata.length
      else count ≤ data.length := by
  split
  · next hm => exact ⟨fun h' => h'.bounded, fun hb => ⟨hb, fun hn => absurd hm hn, h.merged⟩⟩
  · next hm =>
    have hthere : (e.data ++ data).length = e.metadata.length + data.length := by
      rw [List.length_append, h.sized hm]
    have hlength : (grown e data count).metadata.length =
        sum (e.metadata.length + data.length) e.metadata.length count :=
      congrArg (sum · e.metadata.length count) hthere
    refine ⟨fun h' => ?_, fun henough => ?_⟩
    · have hsize := (h'.sized hm).symm.trans hthere
      rw [hlength] at hsize
      exact Nat.le_of_eq ((sum_eq_iff hle).mp hsize).symm
    · have hsum := hlength.trans ((sum_eq_iff hle).mpr (Nat.le_antisymm hle henough))
      refine ⟨?_, fun _ => hthere.trans hsum.symm, h.merged⟩
      rw [hsum]
      exact Nat.le_trans h.bounded (Nat.le_add_right _ _)

/-- An entry that is found takes in a change of its fields and attribute values. -/
theorem withEntry_consistent_iff (hr : Consistent r.entries r.names) (he : r.entry id = .ok e)
    (hid : c.metadata.id = e.metadata.id) (hname : c.metadata.name = e.metadata.name)
    (hlive : c.metadata.state ≠ .deleted) (values : AttributeValues) :
    Consistent (r.withEntry c values).entries (r.withEntry c values).names ↔ c.Fits := by
  obtain ⟨hget, -⟩ := entry_eq_ok_iff.mp he
  have hkey : c.id = id := hid.trans (hr.numbered id e hget)
  simp only [withEntry, hkey]
  exact (hr.replace_iff (c := { c with metadata := withCore c.metadata values }) hget hid hname
    hlive).trans fits_withCore

/-- Taking in a creation keeps the state consistent exactly if the number was free. -/
theorem create_consistent_iff (hr : Consistent r.entries r.names) {name : String}
    {values : AttributeValues} (h : r.create id name values = .ok r') :
    Consistent r'.entries r'.names ↔ id ∉ r.names.values := by
  unfold create at h
  split at h
  · cases h
  · next hfree =>
    cases h
    have hfits : (Entry.ofMetadata { Metadata.new id name with state := .active }).Fits :=
      ⟨Nat.le_refl _, fun _ => rfl, by simp [Entry.ofMetadata, Metadata.new]⟩
    refine hr.insert_iff ?_ rfl rfl (fun hd => by cases hd) (fits_withCore.mpr hfits)
    simpa [Table.contains] using hfree

/-- Taking in a sealing keeps the state consistent exactly if the segment was not merged away. -/
theorem sealing_consistent_iff (hr : Consistent r.entries r.names) {length : Nat}
    (h : r.sealing id length = .ok r') :
    Consistent r'.entries r'.names ↔ r.Suits (.sealing id length) := by
  unfold sealing at h
  split at h
  · cases h
  next e he =>
  obtain ⟨hget, hlive⟩ := entry_eq_ok_iff.mp he
  have hfits := hr.fits id e hget hlive
  split at h
  case isFalse => cases h
  cases h
  simp only [Suits, hget, Option.mem_def, Option.some.injEq, forall_eq']
  refine (hr.replace_iff (c := { e with metadata := { e.metadata with state := .sealed } }) hget
    rfl rfl (by simp)).trans ⟨fun h' hm => ?_, fun hm => ?_⟩
  · have hsealed := h'.merged.mp (hfits.merged.mpr hm)
    cases hsealed
  · refine ⟨hfits.bounded, fun _ => hfits.sized hm, ⟨fun hsome => ?_, fun hs => by cases hs⟩⟩
    exact absurd (hfits.merged.mp hsome) hm

/-- Taking in a merge keeps the state consistent exactly if the source has the bytes by which the
target grows, or the target was merged away itself and stays as long as what was cut off. -/
theorem merge_consistent_iff (hr : Consistent r.entries r.names) {target source : SegmentId}
    {sourceLength offset : Nat} (h : r.merge target source sourceLength offset = .ok r') :
    Consistent r'.entries r'.names ↔ r.Suits (.merge target source sourceLength offset) := by
  unfold merge at h
  split at h
  · cases h
  next hne =>
  split at h
  · cases h
  · cases h
  next t s ht hs =>
  obtain ⟨ht, htl⟩ := entry_eq_ok_iff.mp ht
  obtain ⟨hs, hsl⟩ := entry_eq_ok_iff.mp hs
  have hsfits := hr.fits source s hs hsl
  split at h
  case isFalse => cases h
  next hlengths =>
  obtain ⟨-, rfl⟩ := hlengths
  cases h
  let longer := grown t (s.data.take s.metadata.length) s.metadata.length
  have hlonger : longer.Fits ↔ r.Suits (.merge target source s.metadata.length offset) := by
    rw [fits_grown_iff (hr.fits target t ht htl) (List.length_take_le _ _)]
    simp only [Suits, ht, hs, Option.mem_def, Option.some.injEq, forall_eq', List.length_take,
      Nat.le_min, Nat.le_refl, true_and]
  rw [← hlonger]
  refine ⟨fun h' => h'.fits target longer ?_ htl, fun hfits => ?_⟩
  · change ((r.entries.insert target longer).insert source _).get? target = _
    rw [Table.get?_insert, if_neg hne, Table.get?_insert, if_pos rfl]
  · have hfirst := hr.replace ht (c := longer) rfl rfl htl hfits
    refine hfirst.replace (e := s) ?_ rfl rfl (by simp)
      ⟨hsfits.bounded, fun hm => absurd rfl hm, by simp⟩
    rw [Table.get?_insert, if_neg (Ne.symm hne), hs]

/-- What is taken in keeps the state consistent exactly if it passes the left-out checks. -/
theorem step_consistent_iff (hr : Consistent r.entries r.names) {record : Record}
    (h : r.step record = .ok r') : Consistent r'.entries r'.names ↔ r.Suits record := by
  cases record with
  | create id name values => exact create_consistent_iff hr h
  | append id offset data values =>
    simp only [step, append] at h
    split at h
    · cases h
    next e he =>
    obtain ⟨hget, hlive⟩ := entry_eq_ok_iff.mp he
    have hfits := hr.fits id e hget hlive
    split at h
    case isFalse => cases h
    next hactive =>
    cases h
    have hm : e.metadata.state ≠ .merged := by
      rw [show e.metadata.state = .active from hactive.1]
      decide
    have hgrown : (grown e data data.length).Fits :=
      (fits_grown_iff hfits (Nat.le_refl _)).mpr ((if_neg hm).mpr (Nat.le_refl _))
    exact iff_true_intro
      ((withEntry_consistent_iff (c := grown e data data.length) hr he rfl rfl hlive values).mpr
        hgrown)
  | updateAttributes id values =>
    simp only [step, updateAttributes] at h
    split at h
    · cases h
    next e he =>
    obtain ⟨hget, hlive⟩ := entry_eq_ok_iff.mp he
    cases h
    exact iff_true_intro ((withEntry_consistent_iff hr he rfl rfl hlive values).mpr
      (hr.fits id e hget hlive))
  | sealing id length => exact sealing_consistent_iff hr h
  | merge target source sourceLength offset => exact merge_consistent_iff hr h
  | truncate id offset =>
    simp only [step, truncate] at h
    split at h
    · cases h
    next e he =>
    obtain ⟨hget, hlive⟩ := entry_eq_ok_iff.mp he
    have hfits := hr.fits id e hget hlive
    split at h
    case isFalse => cases h
    next hle =>
    cases h
    exact iff_true_intro (hr.replace hget rfl rfl hlive ⟨hle, hfits.sized, hfits.merged⟩)
  | delete id =>
    simp only [step, delete] at h
    split at h
    · cases h
    next e he =>
    obtain ⟨hget, -⟩ := entry_eq_ok_iff.mp he
    cases h
    exact iff_true_intro (hr.erase hget rfl rfl)

/-- A replay keeps the state consistent all the way exactly if each record passes the left-out
checks. -/
theorem suitsAll_iff (hr : Consistent r.entries r.names) {records : List (Nat × Record)}
    {q : Replayed} (h : (r.steps records).2 = .ok q) :
    r.SuitsAll (records.map Prod.snd) ↔ ∀ front, front <+: records →
      ∃ p, (r.steps front).2 = .ok p ∧ Consistent p.entries p.names := by
  induction records generalizing r with
  | nil =>
    refine iff_of_true trivial fun front hfront => ?_
    rw [List.prefix_nil.mp hfront]
    exact ⟨r, rfl, hr⟩
  | cons entry rest ih =>
    obtain ⟨offset, record⟩ := entry
    obtain ⟨r', hstep, hrest⟩ := steps_cons_eq_ok_iff.mp h
    simp only [List.map_cons, SuitsAll, hstep]
    rw [← step_consistent_iff hr hstep]
    constructor
    · rintro ⟨hr', hsuits⟩ front hfront
      rcases List.prefix_cons_iff.mp hfront with rfl | ⟨later, rfl, hlater⟩
      · exact ⟨r, rfl, hr⟩
      · obtain ⟨p, hp, hconsistent⟩ := (ih hr' hrest).mp hsuits later hlater
        exact ⟨p, steps_cons_eq_ok_iff.mpr ⟨r', hstep, hp⟩, hconsistent⟩
    · intro hall
      have hlater : ∀ front, front <+: rest →
          ∃ p, (r'.steps front).2 = .ok p ∧ Consistent p.entries p.names := by
        intro front hfront
        obtain ⟨p, hp, hconsistent⟩ :=
          hall ((offset, record) :: front) ((List.prefix_cons_inj _).mpr hfront)
        obtain ⟨r'', hr'', hp⟩ := steps_cons_eq_ok_iff.mp hp
        cases hstep.symm.trans hr''
        exact ⟨p, hp, hconsistent⟩
      obtain ⟨p, hp, hr'⟩ := hlater [] List.nil_prefix
      cases hp
      exact ⟨hr', (ih hr' hrest).mpr hlater⟩

end Replayed

namespace Engine

/-- An opened store was consistent after each record of its journal exactly if each record passes
the checks that replay leaves out, and then it is consistent. -/
theorem openStore_consistent {config : Config} {journal : Bytes} {store : AttributeStore}
    {clock : AttributeValue} {s : Engine}
    (h : (Engine.openStore config journal store clock).result = .ok s) :
    let records := (Scan.ofJournal journal).records
    (Replayed.start.SuitsAll (records.map Prod.snd) ↔ ∀ front, front <+: records →
      ∃ r, (Replayed.start.steps front).2 = .ok r ∧ Consistent r.entries r.names) ∧
    (Replayed.start.SuitsAll (records.map Prod.snd) → Consistent s.entries s.names) := by
  intro records
  obtain ⟨r, hr, hnames, hentries⟩ := exists_steps_of_openStore h
  have hiff := Replayed.suitsAll_iff Consistent.empty hr
  refine ⟨hiff, fun hsuits => ?_⟩
  obtain ⟨r', hr', hconsistent⟩ := hiff.mp hsuits records List.prefix_rfl
  cases hr.symm.trans hr'
  rw [hnames]
  exact hconsistent.publish hentries

/-- A store that went through a merge is consistent. -/
theorem openStore_consistent_of_merge : ∃ s, (Engine.openStore .standard (Frame.wholes
    [.create 1 "a" [], .create 2 "b" [], .append 2 0 [0xAA, 0xBB] [], .sealing 2 2, .merge 1 2 2 0])
    .empty 0).result = .ok s ∧ Consistent s.entries s.names := by
  let rs : List Record :=
    [.create 1 "a" [], .create 2 "b" [], .append 2 0 [0xAA, 0xBB] [], .sealing 2 2, .merge 1 2 2 0]
  have hframable : ∀ r ∈ rs, r.Framable := by
    simp only [rs, Record.Framable]
    decide +kernel
  obtain ⟨r, hr⟩ : ∃ r, (Replayed.start.steps (Scan.placed 0 rs)).2 = .ok r := ⟨_, rfl⟩
  obtain ⟨s, hs, -⟩ := exists_openStore hframable hr .standard 0
  refine ⟨s, hs, (openStore_consistent hs).2 ?_⟩
  have hscan := Scan.ofJournal_wholes hframable Frame.torn_nil
  rw [List.append_nil] at hscan
  rw [hscan, Scan.map_snd_placed]
  decide +kernel

/-- Two segments that were created with one number make a store that opens with two names for the
second of them. -/
theorem openStore_of_number_reused : ∃ s, (Engine.openStore .standard (Frame.wholes
    [.create 1 "a" [], .create 1 "b" []]) .empty 0).result = .ok s ∧
    ¬Consistent s.entries s.names := by
  let rs : List Record := [.create 1 "a" [], .create 1 "b" []]
  have hframable : ∀ r ∈ rs, r.Framable := by
    simp only [rs, Record.Framable]
    decide +kernel
  obtain ⟨r, hr, ha, hb⟩ : ∃ r, (Replayed.start.steps (Scan.placed 0 rs)).2 = .ok r ∧
      r.names.get? "a" = some 1 ∧ r.names.get? "b" = some 1 :=
    ⟨_, rfl, by decide +kernel, by decide +kernel⟩
  obtain ⟨s, hs, hnames, -⟩ := exists_openStore hframable hr .standard 0
  refine ⟨s, hs, fun hc => ?_⟩
  have hab := hc.injective "a" "b" 1 (by rw [hnames, ha]) (by rw [hnames, hb])
  simp at hab

end Engine

end Segments
