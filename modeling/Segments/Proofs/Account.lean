import Segments.Journal.Record
import Segments.Proofs.Tiers

/-!
# What a journal says

An account is what the records of a journal say about a store: its segments that were not
deleted, the names they have, and the number of the next one. A segment that is created begins with
the attribute values that were found under its number, as a rule none. `apply` takes in one record,
`Admits` says which records can come next. An account that only took in such records is well
formed.
-/

namespace Segments

/-- What a journal says about one segment. -/
structure SegmentAccount where
  /-- The name. -/
  name : String
  /-- The stage of life. -/
  state : SegmentState
  /-- The segment that took over the content. -/
  mergedInto : Option SegmentId
  /-- The number of bytes ever appended, merged ones included. -/
  length : Nat
  /-- The lowest readable offset. -/
  truncationOffset : Nat
  /-- The bytes; a segment that was merged away has none. -/
  data : Bytes
  /-- The committed value of each attribute. -/
  attributes : AttributeId → AttributeValue

namespace SegmentAccount

/-- A segment without bytes, with the attribute values that were found under its number. -/
def created (name : String) (found : AttributeId → AttributeValue := noValues) : SegmentAccount :=
  ⟨name, .active, none, 0, 0, [], found⟩

/-- The segment after attribute values were committed. -/
def taking (g : SegmentAccount) (values : AttributeValues) : SegmentAccount :=
  { g with attributes := overlaid g.attributes values }

/-- The segment with bytes at its end. -/
def grown (g : SegmentAccount) (data : Bytes) : SegmentAccount :=
  { g with data := g.data ++ data, length := g.length + data.length }

/-- The segment after its content went to another. -/
def mergedAway (g : SegmentAccount) (target : SegmentId) : SegmentAccount :=
  { g with state := .merged, mergedInto := some target, data := [], attributes := noValues }

/-- What holds of every segment at every moment. -/
structure WellFormed (g : SegmentAccount) : Prop where
  /-- A segment is active, sealed or merged away. -/
  state : g.state = .active ∨ g.state = .sealed ∨ g.state = .merged
  /-- Unless it was merged away, all its bytes are there. -/
  sized : g.state ≠ .merged → g.data.length = g.length
  /-- Nothing beyond the end was truncated. -/
  truncated : g.truncationOffset ≤ g.length
  /-- A segment has gone into another exactly when it was merged away. -/
  merged : g.mergedInto.isSome = true ↔ g.state = .merged

/-- A segment of an account was not deleted. -/
theorem WellFormed.state_ne_deleted {g : SegmentAccount} (h : g.WellFormed) :
    g.state ≠ .deleted := by
  rcases h.state with hs | hs | hs <;> rw [hs] <;> decide

/-- A new segment is well formed. -/
theorem wellFormed_created (name : String) (found : AttributeId → AttributeValue) :
    (created name found).WellFormed :=
  ⟨Or.inl rfl, fun _ => rfl, Nat.le_refl 0, by simp [created]⟩

theorem WellFormed.taking {g : SegmentAccount} (h : g.WellFormed) (values : AttributeValues) :
    (g.taking values).WellFormed := ⟨h.state, h.sized, h.truncated, h.merged⟩

theorem WellFormed.grown {g : SegmentAccount} (h : g.WellFormed) (data : Bytes) :
    (g.grown data).WellFormed := by
  refine ⟨h.state, fun hm => ?_, ?_, h.merged⟩
  · simp only [SegmentAccount.grown, List.length_append, h.sized hm]
  · have := h.truncated
    simp only [SegmentAccount.grown]
    omega

theorem WellFormed.mergedAway {g : SegmentAccount} (h : g.WellFormed) (target : SegmentId) :
    (g.mergedAway target).WellFormed :=
  ⟨Or.inr (Or.inr rfl), fun hm => absurd rfl hm, h.truncated, by simp [SegmentAccount.mergedAway]⟩

end SegmentAccount

/-- What a journal says about a store. -/
structure Account where
  /-- The segments that were not deleted. -/
  segments : SegmentId → Option SegmentAccount
  /-- The segment that each name stands for. -/
  names : String → Option SegmentId
  /-- The number of the next segment. -/
  nextId : SegmentId
  /-- The attribute values with which the segments to come begin. -/
  found : SegmentId → AttributeId → AttributeValue

namespace Account

/-- Nothing was recorded yet. -/
def start (found : SegmentId → AttributeId → AttributeValue := fun _ => noValues) : Account :=
  ⟨fun _ => none, fun _ => none, 1, found⟩

/-- The account with one segment changed. -/
def modify (a : Account) (id : SegmentId) (f : SegmentAccount → SegmentAccount) : Account :=
  { a with segments := Function.update a.segments id ((a.segments id).map f) }

/-- The bytes of a segment. -/
def bytesOf (a : Account) (id : SegmentId) : Bytes :=
  match a.segments id with
  | some g => g.data
  | none => []

/-- The names without that of a segment. -/
def namesWithout (a : Account) (id : SegmentId) : String → Option SegmentId :=
  match a.segments id with
  | some g => Function.update a.names g.name none
  | none => a.names

/-- Takes in one record. -/
def apply (a : Account) : Record → Account
  | .create id name values =>
    { a with
      segments := Function.update a.segments id
        (some ((SegmentAccount.created name (a.found id)).taking values))
      names := Function.update a.names name (some id)
      nextId := id + 1 }
  | .append id _ data values => a.modify id fun g => (g.grown data).taking values
  | .updateAttributes id values => a.modify id fun g => g.taking values
  | .sealing id _ => a.modify id fun g => { g with state := .sealed }
  | .merge target source _ _ =>
    (a.modify target fun g => g.grown (a.bytesOf source)).modify source
      fun g => g.mergedAway target
  | .truncate id offset => a.modify id fun g => { g with truncationOffset := offset }
  | .delete id =>
    { a with segments := Function.update a.segments id none, names := a.namesWithout id }

/-- Whatever is recorded leaves what was found. -/
@[simp] theorem apply_found (a : Account) (r : Record) : (a.apply r).found = a.found := by
  cases r <;> rfl

/-- Whether a record can come next. -/
def Admits (a : Account) : Record → Prop
  | .create id name _ => id = a.nextId ∧ a.names name = none
  | .append id offset _ _ =>
    ∃ g, a.segments id = some g ∧ g.state = .active ∧ g.length = offset
  | .updateAttributes id _ => ∃ g, a.segments id = some g ∧ g.state = .active
  | .sealing id length => ∃ g, a.segments id = some g ∧ g.state = .active ∧ g.length = length
  | .merge target source sourceLength targetOffset =>
    ∃ t s, a.segments target = some t ∧ a.segments source = some s ∧ t.state = .active ∧
      s.state = .sealed ∧ t.length = targetOffset ∧ s.length = sourceLength
  | .truncate id offset =>
    ∃ g, a.segments id = some g ∧ (g.state = .active ∨ g.state = .sealed) ∧
      g.truncationOffset < offset ∧ offset ≤ g.length
  | .delete id => ∃ g, a.segments id = some g

/-- What a list of records says, over an attribute store in which some values were found. -/
def after (rs : List Record)
    (found : SegmentId → AttributeId → AttributeValue := fun _ => noValues) : Account :=
  rs.foldl apply (start found)

/-- Whether records can come one after another. -/
def AdmitsAll (a : Account) : List Record → Prop
  | [] => True
  | r :: rs => a.Admits r ∧ (a.apply r).AdmitsAll rs

variable {found : SegmentId → AttributeId → AttributeValue}

/-- What was found is kept by records. -/
theorem foldl_apply_found (a : Account) (rs : List Record) :
    (rs.foldl apply a).found = a.found := by
  induction rs generalizing a with
  | nil => rfl
  | cons r rs ih => exact (ih (a.apply r)).trans (apply_found a r)

/-- What was found stays what it was. -/
@[simp] theorem after_found (rs : List Record) : (after rs found).found = found :=
  foldl_apply_found (start found) rs

/-- The last record is taken in last. -/
theorem after_append_singleton (rs : List Record) (r : Record) :
    after (rs ++ [r]) found = (after rs found).apply r := by
  simp [after]

/-- Records may come one after another exactly if the first do, and the others after them. -/
theorem admitsAll_append {a : Account} {rs more : List Record} :
    a.AdmitsAll (rs ++ more) ↔ a.AdmitsAll rs ∧ (rs.foldl apply a).AdmitsAll more := by
  induction rs generalizing a with
  | nil => simp [AdmitsAll]
  | cons r rs ih =>
    simp only [List.cons_append, AdmitsAll, List.foldl_cons, ih, and_assoc]

/-- One more record may come. -/
theorem AdmitsAll.snoc {rs : List Record} (h : (start found).AdmitsAll rs) {r : Record}
    (hr : (after rs found).Admits r) : (start found).AdmitsAll (rs ++ [r]) :=
  admitsAll_append.mpr ⟨h, hr, trivial⟩

/-- What holds of every store at every moment. -/
structure WellFormed (a : Account) : Prop where
  /-- Each segment is well formed. -/
  segment : ∀ id g, a.segments id = some g → g.WellFormed
  /-- Each segment is found by its name. -/
  named : ∀ id g, a.segments id = some g → a.names g.name = some id
  /-- Each name stands for a segment that has it. -/
  name : ∀ n id, a.names n = some id → ∃ g, a.segments id = some g ∧ g.name = n
  /-- Numbers are given out in order. -/
  numbered : ∀ id g, a.segments id = some g → id < a.nextId

/-- Nothing recorded is well formed. -/
theorem wellFormed_start : (start found).WellFormed := by
  constructor <;> simp [start]

/-- Changing one segment in a way that keeps it well formed and its name keeps the account well
formed. -/
theorem WellFormed.modify {a : Account} (h : a.WellFormed) {id : SegmentId}
    {f : SegmentAccount → SegmentAccount} (hf : ∀ g, a.segments id = some g → (f g).WellFormed)
    (hname : ∀ g, (f g).name = g.name) : (a.modify id f).WellFormed := by
  have hget : ∀ j g, (a.modify id f).segments j = some g →
      ∃ g', a.segments j = some g' ∧ (g = g' ∨ j = id ∧ g = f g') := by
    intro j g hg
    by_cases hj : j = id
    · subst hj
      simp only [Account.modify, Function.update_self, Option.map_eq_some_iff] at hg
      obtain ⟨g', hg', rfl⟩ := hg
      exact ⟨g', hg', Or.inr ⟨rfl, rfl⟩⟩
    · simp only [Account.modify, Function.update_of_ne hj] at hg
      exact ⟨g, hg, Or.inl rfl⟩
  refine ⟨fun j g hg => ?_, fun j g hg => ?_, fun n j hn => ?_, fun j g hg => ?_⟩
  · obtain ⟨g', hg', rfl | ⟨rfl, rfl⟩⟩ := hget j g hg
    · exact h.segment j _ hg'
    · exact hf g' hg'
  · obtain ⟨g', hg', rfl | ⟨rfl, rfl⟩⟩ := hget j g hg
    · exact h.named j _ hg'
    · rw [hname]
      exact h.named j g' hg'
  · obtain ⟨g, hg, rfl⟩ := h.name n j hn
    by_cases hj : j = id
    · subst hj
      exact ⟨f g, by simp [Account.modify, hg], hname g⟩
    · exact ⟨g, by simp [Account.modify, Function.update_of_ne hj, hg], rfl⟩
  · obtain ⟨g', hg', -⟩ := hget j g hg
    exact h.numbered j g' hg'

/-- A creation keeps the account well formed. -/
theorem WellFormed.create {a : Account} (h : a.WellFormed) {name : String}
    (hname : a.names name = none) (values : AttributeValues) :
    (a.apply (.create a.nextId name values)).WellFormed := by
  have hne : ∀ j g, a.segments j = some g → j ≠ a.nextId := by
    intro j g hg hj
    have hlt := h.numbered j g hg
    rw [hj] at hlt
    exact Nat.lt_irrefl _ hlt
  refine ⟨fun j g hg => ?_, fun j g hg => ?_, fun n j hn => ?_, fun j g hg => ?_⟩
  · by_cases hj : j = a.nextId
    · simp only [apply, hj, Function.update_self, Option.some.injEq] at hg
      exact hg ▸ (SegmentAccount.wellFormed_created name _).taking values
    · simp only [apply, Function.update_of_ne hj] at hg
      exact h.segment j g hg
  · by_cases hj : j = a.nextId
    · simp only [apply, hj, Function.update_self, Option.some.injEq] at hg
      subst hg
      simp [apply, hj, SegmentAccount.taking, SegmentAccount.created]
    · simp only [apply, Function.update_of_ne hj] at hg
      have hn : g.name ≠ name := by
        intro he
        have := h.named j g hg
        rw [he, hname] at this
        cases this
      simp only [apply, Function.update_of_ne hn]
      exact h.named j g hg
  · by_cases hn' : n = name
    · simp only [apply, hn', Function.update_self, Option.some.injEq] at hn
      subst hn
      exact ⟨_, Function.update_self .., hn'.symm⟩
    · simp only [apply, Function.update_of_ne hn'] at hn
      obtain ⟨g, hg, hgn⟩ := h.name n j hn
      exact ⟨g, by simp [apply, Function.update_of_ne (hne j g hg), hg], hgn⟩
  · by_cases hj : j = a.nextId
    · rw [hj]
      exact Nat.lt_succ_self a.nextId
    · simp only [apply, Function.update_of_ne hj] at hg
      exact Nat.lt_succ_of_lt (h.numbered j g hg)

/-- A deletion keeps the account well formed. -/
theorem WellFormed.delete {a : Account} (h : a.WellFormed) {id : SegmentId} {g : SegmentAccount}
    (hg : a.segments id = some g) : (a.apply (.delete id)).WellFormed := by
  have hnames : a.namesWithout id = Function.update a.names g.name none := by
    simp [namesWithout, hg]
  have hget : ∀ j g', (a.apply (.delete id)).segments j = some g' →
      j ≠ id ∧ a.segments j = some g' := by
    intro j g' hg'
    by_cases hj : j = id
    · simp [apply, hj] at hg'
    · exact ⟨hj, by simpa [apply, Function.update_of_ne hj] using hg'⟩
  refine ⟨fun j g' hg' => h.segment j g' (hget j g' hg').2, fun j g' hg' => ?_,
    fun n j hn => ?_, fun j g' hg' => h.numbered j g' (hget j g' hg').2⟩
  · obtain ⟨hj, hg''⟩ := hget j g' hg'
    have hne : g'.name ≠ g.name := by
      intro he
      have h1 := h.named j g' hg''
      rw [he, h.named id g hg, Option.some.injEq] at h1
      exact hj h1.symm
    simp only [apply, hnames, Function.update_of_ne hne]
    exact h.named j g' hg''
  · by_cases hn' : n = g.name
    · simp [apply, hnames, hn'] at hn
    · simp only [apply, hnames, Function.update_of_ne hn'] at hn
      obtain ⟨g', hg', hgn⟩ := h.name n j hn
      have hj : j ≠ id := by
        rintro rfl
        rw [hg, Option.some.injEq] at hg'
        exact hn' (by rw [hg', hgn])
      exact ⟨g', by simp [apply, Function.update_of_ne hj, hg'], hgn⟩

/-- The two segments of a merge differ: one is active, the other sealed. -/
theorem ne_of_admits_merge {a : Account} {target source : SegmentId} {sourceLength offset : Nat}
    (h : a.Admits (.merge target source sourceLength offset)) : target ≠ source := by
  obtain ⟨t, s, ht, hs, hta, hss, -, -⟩ := h
  rintro rfl
  rw [ht, Option.some.injEq] at hs
  rw [hs, hss] at hta
  cases hta

/-- A record that can come next keeps the account well formed. -/
theorem WellFormed.apply {a : Account} (h : a.WellFormed) {r : Record} (hr : a.Admits r) :
    (a.apply r).WellFormed := by
  cases r with
  | create id name values =>
    obtain ⟨rfl, hname⟩ := hr
    exact h.create hname values
  | append id offset data values =>
    exact h.modify (fun g hg => ((h.segment id g hg).grown data).taking values) fun _ => rfl
  | updateAttributes id values =>
    exact h.modify (fun g hg => (h.segment id g hg).taking values) fun _ => rfl
  | sealing id length =>
    obtain ⟨g, hg, hactive, -⟩ := hr
    refine h.modify (fun g' hg' => ?_) fun _ => rfl
    rw [hg, Option.some.injEq] at hg'
    subst hg'
    have hw := h.segment id g hg
    have hm : g.mergedInto.isSome = false := by
      rw [Bool.eq_false_iff, ne_eq, hw.merged, hactive]
      decide
    exact ⟨Or.inr (Or.inl rfl), fun _ => hw.sized (by rw [hactive]; decide), hw.truncated,
      by simp [hm]⟩
  | merge target source sourceLength offset =>
    have hne := ne_of_admits_merge hr
    have hgrown : (a.modify target fun g => g.grown (a.bytesOf source)).WellFormed :=
      h.modify (fun g hg => (h.segment target g hg).grown _) fun _ => rfl
    exact hgrown.modify (fun g hg => (hgrown.segment source g hg).mergedAway target) fun _ => rfl
  | truncate id offset =>
    obtain ⟨g, hg, -, -, hle⟩ := hr
    refine h.modify (fun g' hg' => ?_) fun _ => rfl
    rw [hg, Option.some.injEq] at hg'
    subst hg'
    have hw := h.segment id g hg
    exact ⟨hw.state, hw.sized, hle, hw.merged⟩
  | delete id =>
    obtain ⟨g, hg⟩ := hr
    exact h.delete hg

/-- Records that can come keep an account well formed. -/
theorem wellFormed_foldl {a : Account} (h : a.WellFormed) {rs : List Record}
    (hrs : a.AdmitsAll rs) : (rs.foldl Account.apply a).WellFormed := by
  induction rs generalizing a with
  | nil => exact h
  | cons r rs ih => exact ih (h.apply hrs.1) hrs.2

/-- Records that can come one after another leave a well-formed account. -/
theorem wellFormed_after {rs : List Record} (h : (start found).AdmitsAll rs) :
    (after rs found).WellFormed :=
  wellFormed_foldl wellFormed_start h

end Account

end Segments
