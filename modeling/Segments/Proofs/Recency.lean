import Mathlib.Data.List.Induction
import Segments.Proofs.Tiers

/-!
# The least recently used

The history of a cache is the calls that were made of it, each with its answer, for only the two
together tell what was touched and what was stored. The stamps order the extended entries as the
history does. So trimming drops the entries that were touched least recently; nothing else drops an
entry but what says so, and what is resident is what was stored last.
-/

namespace Segments

/-- A call of an attribute cache. -/
inductive CacheCall where
  /-- A value is looked up and marked as used. -/
  | get (id : AttributeId)
  /-- A value is looked up. -/
  | peek (id : AttributeId)
  /-- It is asked whether a value is there. -/
  | contains (id : AttributeId)
  /-- A value is stored. -/
  | set (id : AttributeId) (value : AttributeValue)
  /-- A value is stored where none is. -/
  | insertIfAbsent (id : AttributeId) (value : AttributeValue)
  /-- A value is removed. -/
  | remove (id : AttributeId)
  /-- Extended entries beyond a bound are dropped. -/
  | trim (max : Nat)
  /-- All extended entries are dropped. -/
  | clearExtended
  /-- All entries are dropped. -/
  | clear
  /-- The extended entries are counted. -/
  | extendedSize
  /-- All values are listed. -/
  | snapshot

/-- What a call of a cache answers. -/
inductive CacheAnswer where
  /-- Nothing. -/
  | done
  /-- A value, if there is one. -/
  | value (v : Option AttributeValue)
  /-- Yes or no. -/
  | flag (b : Bool)
  /-- A number of entries. -/
  | count (n : Nat)
  /-- Values. -/
  | values (vs : AttributeValues)

/-- A call with its answer. -/
structure CacheEvent where
  /-- The call. -/
  call : CacheCall
  /-- The answer. -/
  answer : CacheAnswer

namespace CacheCall

/-- The cache after a call, and the answer. -/
def make (c : AttributeCache) : CacheCall → AttributeCache × CacheAnswer
  | get id => ((c.get id).1, .value (c.get id).2)
  | peek id => (c, .value (c.peek id))
  | contains id => (c, .flag (c.contains id))
  | set id value => (c.set id value, .done)
  | insertIfAbsent id value =>
    ((c.insertIfAbsent id value).1, .flag (c.insertIfAbsent id value).2)
  | remove id => (c.remove id, .done)
  | trim max => ((c.trim max).1, .count (c.trim max).2)
  | clearExtended => (c.clearExtended, .count c.extendedSize)
  | clear => (c.clear, .done)
  | extendedSize => (c, .count c.extendedSize)
  | snapshot => (c, .values c.snapshot)

/-- Whether a call drops the entry of an attribute, if there is one. -/
def Drops (id : AttributeId) : CacheCall → Prop
  | remove x => x = id
  | set x value => x = id ∧ value = nullValue
  | clear => True
  | clearExtended => id.isExtended = true
  | _ => False

/-- Whether a call may drop the entry of an attribute; trimming drops some entries and keeps
others. -/
def MayDrop (id : AttributeId) (call : CacheCall) : Prop :=
  call.Drops id ∨ id.isExtended = true ∧ ∃ max, call = trim max

end CacheCall

namespace CacheEvent

/-- Whether an attribute was touched: a value of it was stored, or looked up and found. -/
def Touches (id : AttributeId) : CacheEvent → Prop
  | ⟨.set x value, _⟩ => x = id ∧ value ≠ nullValue
  | ⟨.insertIfAbsent x _, .flag true⟩ => x = id
  | ⟨.get x, .value (some _)⟩ => x = id
  | _ => False

/-- Whether a value was stored for an attribute. -/
def Stores (id : AttributeId) (v : AttributeValue) : CacheEvent → Prop
  | ⟨.set x value, _⟩ => x = id ∧ value = v
  | ⟨.insertIfAbsent x value, .flag true⟩ => x = id ∧ value = v
  | _ => False

end CacheEvent

/-- A cache with all that was done to it, first things first. -/
structure CacheHistory where
  /-- The cache. -/
  cache : AttributeCache
  /-- The calls with their answers. -/
  events : List CacheEvent

namespace CacheHistory

/-- The cache after one more call. -/
def make (h : CacheHistory) (call : CacheCall) : CacheHistory :=
  ⟨(call.make h.cache).1, h.events ++ [⟨call, (call.make h.cache).2⟩]⟩

/-- A new cache after some calls. -/
def after (calls : List CacheCall) : CacheHistory := calls.foldl make ⟨.empty, []⟩

/-- The last call is made last. -/
theorem after_concat (calls : List CacheCall) (call : CacheCall) :
    after (calls ++ [call]) = (after calls).make call := List.foldl_append

end CacheHistory

/-! ## What was last -/

/-- Something was so at one place of a list, and from there on something else was not. -/
def Lastly {α : Type} (P Q : α → Prop) (l : List α) : Prop :=
  ∃ before e later, l = before ++ e :: later ∧ P e ∧ ∀ e' ∈ later, ¬Q e'

namespace Lastly

variable {α : Type} {P Q : α → Prop} {l : List α} {e : α}

/-- It was so at the last place. -/
theorem concat_self (l : List α) (h : P e) : Lastly P Q (l ++ [e]) :=
  ⟨l, e, [], rfl, h, List.forall_mem_nil _⟩

/-- One place more, at which the other thing was not so. -/
theorem concat (h : Lastly P Q l) (he : ¬Q e) : Lastly P Q (l ++ [e]) := by
  obtain ⟨before, e', later, rfl, hP, hQ⟩ := h
  refine ⟨before, e', later ++ [e], by simp, hP, ?_⟩
  exact List.forall_mem_append.mpr ⟨hQ, List.forall_mem_singleton.mpr he⟩

/-- The last place is where it was so, or it was so before and the other thing is not so now. -/
theorem of_concat (h : Lastly P Q (l ++ [e])) : P e ∨ Lastly P Q l ∧ ¬Q e := by
  obtain ⟨before, e', later, hl, hP, hQ⟩ := h
  rcases later.eq_nil_or_concat with rfl | ⟨later, e₁, rfl⟩
  · obtain ⟨-, he⟩ := List.append_inj' hl rfl
    obtain rfl := List.singleton_inj.mp he
    exact Or.inl hP
  · rw [List.concat_eq_append, ← List.cons_append, ← List.append_assoc] at hl
    obtain ⟨rfl, he⟩ := List.append_inj' hl rfl
    obtain rfl := List.singleton_inj.mp he
    obtain ⟨hlater, hlast⟩ := List.forall_mem_append.mp (List.concat_eq_append ▸ hQ)
    exact Or.inr ⟨⟨before, e', later, rfl, hP, hlater⟩, hlast e (List.mem_singleton_self e)⟩

end Lastly

namespace CacheHistory

/-- One attribute was touched after another was touched for the last time. -/
def TouchedAfter (h : CacheHistory) (id other : AttributeId) : Prop :=
  Lastly (CacheEvent.Touches id) (CacheEvent.Touches other) h.events

/-- What was stored last for an attribute. -/
def LastStored (h : CacheHistory) (id : AttributeId) (v : AttributeValue) : Prop :=
  Lastly (CacheEvent.Stores id v) (fun e => ∃ w, e.Stores id w) h.events

end CacheHistory

/-! ## What a call does -/

/-- What a call does to the extended entries: it keeps some of them as they are, or gives one of
them the latest stamp. -/
inductive AttributeCache.Moves (c c' : AttributeCache) (e : CacheEvent) : Prop where
  /-- Entries are kept, and no extended attribute is touched. -/
  | keeps (entries : ∀ id v, c'.extended.get? id = some v → c.extended.get? id = some v)
      (clock : c.clock ≤ c'.clock) (untouched : ∀ id, id.isCore = false → ¬e.Touches id)
  /-- One attribute is touched. -/
  | renews (id : AttributeId) (v : AttributeValue) (extended : id.isCore = false)
      (entries : ∀ j, c'.extended.get? j =
        if j = id then some ⟨v, c.clock + 1⟩ else c.extended.get? j)
      (clock : c'.clock = c.clock + 1) (touched : e.Touches id)
      (untouched : ∀ j, j ≠ id → ¬e.Touches j)

namespace AttributeCache

variable {c : AttributeCache}

/-- A call that touches nothing extended may leave the entries as they are. -/
theorem Moves.of_eq {c' : AttributeCache} {e : CacheEvent} (hentries : c'.extended = c.extended)
    (hclock : c'.clock = c.clock) (h : ∀ id, id.isCore = false → ¬e.Touches id) : Moves c c' e :=
  .keeps (fun id v hv => by rwa [hentries] at hv) (Nat.le_of_eq hclock.symm) h

/-- A removal touches nothing. -/
theorem moves_remove (c : AttributeCache) (id : AttributeId) {e : CacheEvent}
    (h : ∀ id, id.isCore = false → ¬e.Touches id) : Moves c (c.remove id) e := by
  unfold remove
  split
  · exact .of_eq rfl rfl h
  · refine .keeps (fun j v hv => ?_) (Nat.le_refl _) h
    simp only [Table.get?_erase] at hv
    split at hv
    · cases hv
    · exact hv

/-- A value that is set takes the latest stamp, unless it is that for none. -/
theorem moves_set (c : AttributeCache) {id : AttributeId} {value : AttributeValue} {e : CacheEvent}
    (h : ∀ j, e.Touches j ↔ id = j ∧ value ≠ nullValue) : Moves c (c.set id value) e := by
  unfold set
  split
  · next hnull => exact c.moves_remove id fun j _ ht => ((h j).mp ht).2 hnull
  · next hvalue =>
    split
    · next hcore =>
      refine .of_eq rfl rfl fun j hj ht => ?_
      rw [← ((h j).mp ht).1, hcore] at hj
      cases hj
    · next hcore =>
      exact .renews id value (Bool.eq_false_iff.mpr hcore) (fun j => Table.get?_insert _ _ _ _) rfl
        ((h id).mpr ⟨rfl, hvalue⟩) fun j hj ht => hj ((h j).mp ht).1.symm

/-- A hit takes the latest stamp. -/
theorem moves_get (c : AttributeCache) (id : AttributeId) :
    Moves c (c.get id).1 ⟨.get id, .value (c.get id).2⟩ := by
  simp only [get, touch]
  split
  · next hcore =>
    refine .of_eq rfl rfl fun j hj ht => ?_
    cases hp : c.peek id with
    | none => simp [hp, CacheEvent.Touches] at ht
    | some v =>
      simp only [hp, CacheEvent.Touches] at ht
      rw [← ht, hcore] at hj
      cases hj
  · next hcore =>
    rw [Bool.not_eq_true] at hcore
    cases hv : c.extended.get? id with
    | none =>
      refine .keeps (fun j v hj => ?_) (Nat.le_succ _) fun j _ ht => ?_
      · simp only [Table.get?_modify] at hj
        split at hj
        · next hid => simp [hid, hv] at hj
        · exact hj
      · simp [peek, hcore, hv, CacheEvent.Touches] at ht
    | some v =>
      have hp : c.peek id = some v.value := by simp [peek, hcore, hv]
      refine .renews id v.value hcore (fun j => ?_) rfl (by simp only [hp, CacheEvent.Touches])
        fun j hj ht => ?_
      · simp only [Table.get?_modify]
        by_cases hid : j = id
        · simp [hid, hv]
        · simp [hid]
      · simp only [hp, CacheEvent.Touches] at ht
        exact hj ht.symm

/-- A value that is put in where there is none takes the latest stamp. -/
theorem moves_insertIfAbsent (c : AttributeCache) (id : AttributeId) (value : AttributeValue) :
    Moves c (c.insertIfAbsent id value).1
      ⟨.insertIfAbsent id value, .flag (c.insertIfAbsent id value).2⟩ := by
  unfold insertIfAbsent
  split
  · exact .of_eq rfl rfl fun _ _ ht => ht
  · next hnot =>
    rw [not_or] at hnot
    exact c.moves_set fun j => ⟨fun ht => ⟨ht, hnot.1⟩, fun ht => ht.1⟩

/-- A trim touches nothing. -/
theorem moves_trim (c : AttributeCache) (max : Nat) {e : CacheEvent}
    (h : ∀ id, id.isCore = false → ¬e.Touches id) : Moves c (c.trim max).1 e := by
  refine .keeps (fun id v hv => ?_) (Nat.le_refl _) h
  simp only [trim, Table.get?_filter, Option.filter_eq_some_iff] at hv
  exact hv.1

/-- Every call keeps extended entries as they are, or gives one of them the latest stamp. -/
theorem moves (c : AttributeCache) (call : CacheCall) :
    Moves c (call.make c).1 ⟨call, (call.make c).2⟩ := by
  cases call with
  | get id => exact c.moves_get id
  | set id value => exact c.moves_set fun j => Iff.rfl
  | insertIfAbsent id value => exact c.moves_insertIfAbsent id value
  | remove id => exact c.moves_remove id fun _ _ ht => ht
  | trim max => exact c.moves_trim max fun _ _ ht => ht
  | clearExtended => exact .keeps (fun id v hv => by cases hv) (Nat.le_refl _) fun _ _ ht => ht
  | clear => exact .keeps (fun id v hv => by cases hv) (Nat.le_refl _) fun _ _ ht => ht
  | peek | contains | extendedSize | snapshot => exact .of_eq rfl rfl fun _ _ ht => ht

/-- Exactly the one value is removed. -/
theorem peek_remove (c : AttributeCache) (id id' : AttributeId) :
    (c.remove id).peek id' = if id' = id then none else c.peek id' := by
  have hset := c.peek_set id id' nullValue
  rwa [set, if_pos rfl, kept, if_pos rfl] at hset

/-- What is resident after a call was stored by it, or was resident before and the call has stored
nothing in its place. -/
theorem peek_make {call : CacheCall} {id : AttributeId} {v : AttributeValue}
    (h : (call.make c).1.peek id = some v) :
    (v ≠ nullValue ∧ CacheEvent.Stores id v ⟨call, (call.make c).2⟩) ∨
      (c.peek id = some v ∧ ∀ w, ¬CacheEvent.Stores id w ⟨call, (call.make c).2⟩) := by
  have hset : ∀ x value, (c.set x value).peek id = some v →
      (v ≠ nullValue ∧ x = id ∧ value = v) ∨ (c.peek id = some v ∧ x ≠ id) := by
    intro x value hv
    rw [peek_set] at hv
    split at hv
    · next hid =>
      unfold kept at hv
      split at hv
      · cases hv
      · next hvalue =>
        obtain rfl := Option.some.inj hv
        exact Or.inl ⟨hvalue, hid.symm, rfl⟩
    · next hid => exact Or.inr ⟨hv, Ne.symm hid⟩
  cases call with
  | get x => exact Or.inr ⟨by simpa [CacheCall.make, get] using h, fun _ ht => ht⟩
  | set x value =>
    rcases hset x value h with ⟨hne, hstored⟩ | ⟨hold, hne⟩
    · exact Or.inl ⟨hne, hstored⟩
    · exact Or.inr ⟨hold, fun w ht => hne ht.1⟩
  | insertIfAbsent x value =>
    simp only [CacheCall.make, insertIfAbsent] at h ⊢
    split at h
    · next hnot => exact Or.inr ⟨h, fun _ ht => by simp [hnot, CacheEvent.Stores] at ht⟩
    · next hnot =>
      simp only [hnot, ↓reduceIte]
      rcases hset x value h with ⟨hne, hstored⟩ | ⟨hold, hne⟩
      · exact Or.inl ⟨hne, hstored⟩
      · exact Or.inr ⟨hold, fun w ht => hne ht.1⟩
  | remove x =>
    simp only [CacheCall.make, peek_remove] at h
    split at h
    · cases h
    · exact Or.inr ⟨h, fun _ ht => ht⟩
  | trim max => exact Or.inr ⟨peek_of_peek_trim h, fun _ ht => ht⟩
  | clearExtended =>
    simp only [CacheCall.make, peek_clearExtended] at h
    split at h
    · exact Or.inr ⟨h, fun _ ht => ht⟩
    · cases h
  | clear => simp [CacheCall.make] at h
  | peek | contains | extendedSize | snapshot => exact Or.inr ⟨h, fun _ ht => ht⟩

/-- A call drops nothing that it may not drop. -/
theorem contains_make {call : CacheCall} {id : AttributeId} (hid : c.contains id = true)
    (hcall : ¬call.MayDrop id) : (call.make c).1.contains id = true := by
  have hset : ∀ x value, ¬(x = id ∧ value = nullValue) → (c.set x value).contains id = true := by
    intro x value hnot
    rw [contains, peek_set]
    split
    · next hx =>
      rw [kept, if_neg fun hnull => hnot ⟨hx.symm, hnull⟩]
      rfl
    · exact hid
  cases call with
  | get x => simpa [CacheCall.make, get, contains] using hid
  | set x value => exact hset x value fun hnull => hcall (Or.inl hnull)
  | insertIfAbsent x value =>
    simp only [CacheCall.make, insertIfAbsent]
    split
    · exact hid
    · next hnot => exact hset x value fun hnull => hnot (Or.inl hnull.2)
  | remove x =>
    simp only [CacheCall.make, contains, peek_remove]
    rw [if_neg fun hx => hcall (Or.inl hx.symm)]
    exact hid
  | trim max =>
    have hcore : id.isCore = true := by
      simpa [CacheCall.MayDrop, CacheCall.Drops, AttributeId.isExtended] using hcall
    simpa only [CacheCall.make, contains, peek_trim_of_core c max hcore] using hid
  | clearExtended =>
    have hcore : id.isCore = true := by
      simpa [CacheCall.MayDrop, CacheCall.Drops, AttributeId.isExtended] using hcall
    simpa only [CacheCall.make, contains, peek_clearExtended, hcore, ↓reduceIte] using hid
  | clear => exact absurd (Or.inl trivial) hcall
  | peek | contains | extendedSize | snapshot => exact hid

/-- A value that is resident stays unless a call stores another in its place or may drop it. -/
theorem peek_make_of_kept {call : CacheCall} {id : AttributeId} {v : AttributeValue}
    (hv : c.peek id = some v) (hstored : ∀ w, ¬CacheEvent.Stores id w ⟨call, (call.make c).2⟩)
    (hcall : ¬call.MayDrop id) : (call.make c).1.peek id = some v := by
  have hthere : (call.make c).1.contains id = true :=
    contains_make (by rw [contains, hv]; rfl) hcall
  obtain ⟨w, hw⟩ := Option.isSome_iff_exists.mp hthere
  rcases peek_make hw with ⟨-, hs⟩ | ⟨hold, -⟩
  · exact absurd hs (hstored w)
  · rw [hw, ← hold, hv]

/-- A value that is stored is resident then. -/
theorem peek_make_of_stores {call : CacheCall} {id : AttributeId} {v : AttributeValue}
    (hv : v ≠ nullValue) (hs : CacheEvent.Stores id v ⟨call, (call.make c).2⟩) :
    (call.make c).1.peek id = some v := by
  have hset : (c.set id v).peek id = some v := by
    rw [peek_set, if_pos rfl, kept, if_neg hv]
  cases call with
  | set x value =>
    obtain ⟨rfl, rfl⟩ := hs
    exact hset
  | insertIfAbsent x value =>
    simp only [CacheCall.make, insertIfAbsent] at hs ⊢
    split at hs
    · exact hs.elim
    · next hnot =>
      obtain ⟨rfl, rfl⟩ := hs
      rw [if_neg hnot]
      exact hset
  | _ => exact hs.elim

/-- What a call drops is not resident then. -/
theorem peek_make_of_drops {call : CacheCall} {id : AttributeId} (hcall : call.Drops id) :
    (call.make c).1.peek id = none := by
  cases call with
  | remove x =>
    obtain rfl : x = id := hcall
    simp only [CacheCall.make, peek_remove, ↓reduceIte]
  | set x value =>
    obtain ⟨rfl, rfl⟩ := hcall
    simp only [CacheCall.make, peek_set, kept, ↓reduceIte]
  | clear => exact peek_empty id
  | clearExtended =>
    have hextended : id.isCore = false := by
      simpa [CacheCall.Drops, AttributeId.isExtended] using hcall
    simp only [CacheCall.make, peek_clearExtended, hextended, Bool.false_eq_true, ↓reduceIte]
  | _ => exact hcall.elim

/-- A value is inserted if it is not that of none and there is no other. -/
theorem insertIfAbsent_snd (c : AttributeCache) (id : AttributeId) (value : AttributeValue) :
    (c.insertIfAbsent id value).2 = (decide (value ≠ nullValue) && !c.contains id) := by
  unfold insertIfAbsent
  by_cases hvalue : value = nullValue <;> cases c.contains id <;> simp [hvalue]

end AttributeCache

/-! ## Stamps and the order of use -/

namespace CacheHistory

open AttributeCache

variable {h : CacheHistory}

/-- The stamps of the entries order them as the history does, and what is resident was stored
last. -/
structure Ordered (h : CacheHistory) : Prop where
  /-- Only extended attributes have stamps. -/
  extended : ∀ id v, h.cache.extended.get? id = some v → id.isCore = false
  /-- The stamps were given out. -/
  stamped : ∀ id v, h.cache.extended.get? id = some v → v.lastUsed ≤ h.cache.clock
  /-- Of two entries one has the earlier stamp, and the other was touched after it. -/
  apart : ∀ a b v w, a ≠ b → h.cache.extended.get? a = some v → h.cache.extended.get? b = some w →
    (v.lastUsed < w.lastUsed ∧ h.TouchedAfter b a) ∨ (w.lastUsed < v.lastUsed ∧ h.TouchedAfter a b)
  /-- What is resident was stored last. -/
  stored : ∀ id v, h.cache.peek id = some v → v ≠ nullValue ∧ h.LastStored id v

/-- An empty history is ordered. -/
theorem ordered_empty : Ordered ⟨.empty, []⟩ where
  extended id v hv := by cases hv
  stamped id v hv := by cases hv
  apart a b v w _ hv := by cases hv
  stored id v hv := by simp [peek_empty] at hv

/-- Every call keeps the order. -/
theorem Ordered.make (h₀ : h.Ordered) (call : CacheCall) : (h.make call).Ordered := by
  have hstored : ∀ id v, (h.make call).cache.peek id = some v →
      v ≠ nullValue ∧ (h.make call).LastStored id v := by
    intro id v hv
    rcases peek_make hv with ⟨hne, hs⟩ | ⟨hold, hnone⟩
    · exact ⟨hne, Lastly.concat_self h.events hs⟩
    · obtain ⟨hne, hlast⟩ := h₀.stored id v hold
      exact ⟨hne, hlast.concat fun ⟨w, hw⟩ => hnone w hw⟩
  rcases h.cache.moves call with ⟨entries, clock, untouched⟩ |
    ⟨x, value, hx, entries, clock, touched, untouched⟩
  · refine ⟨fun id v hv => h₀.extended id v (entries id v hv),
      fun id v hv => Nat.le_trans (h₀.stamped id v (entries id v hv)) clock,
      fun a b v w hab hv hw => ?_, hstored⟩
    have ha := h₀.extended a v (entries a v hv)
    have hb := h₀.extended b w (entries b w hw)
    exact (h₀.apart a b v w hab (entries a v hv) (entries b w hw)).imp
      (And.imp_right fun hlast => Lastly.concat hlast (untouched a ha))
      (And.imp_right fun hlast => Lastly.concat hlast (untouched b hb))
  · -- what was touched just now has the latest stamp; all else is as it was
    have hcases : ∀ id v, (h.make call).cache.extended.get? id = some v →
        (id = x ∧ v.lastUsed = h.cache.clock + 1) ∨
          (id ≠ x ∧ h.cache.extended.get? id = some v) := by
      intro id v hv
      rw [CacheHistory.make, entries] at hv
      split at hv
      · next hid => exact Or.inl ⟨hid, by rw [← Option.some.inj hv]⟩
      · next hid => exact Or.inr ⟨hid, hv⟩
    refine ⟨fun id v hv => ?_, fun id v hv => ?_, fun a b v w hab hv hw => ?_, hstored⟩
    · rcases hcases id v hv with ⟨rfl, -⟩ | ⟨-, hold⟩
      · exact hx
      · exact h₀.extended id v hold
    · rw [CacheHistory.make, clock]
      rcases hcases id v hv with ⟨-, hlast⟩ | ⟨-, hold⟩
      · exact Nat.le_of_eq hlast
      · exact Nat.le_trans (h₀.stamped id v hold) (Nat.le_succ _)
    · rcases hcases a v hv with ⟨rfl, hva⟩ | ⟨ha, hva⟩ <;>
        rcases hcases b w hw with ⟨rfl, hwb⟩ | ⟨hb, hwb⟩
      · exact absurd rfl hab
      · have hle := h₀.stamped b w hwb
        exact Or.inr ⟨by omega, Lastly.concat_self h.events touched⟩
      · have hle := h₀.stamped a v hva
        exact Or.inl ⟨by omega, Lastly.concat_self h.events touched⟩
      · exact (h₀.apart a b v w hab hva hwb).imp
          (And.imp_right fun hlast => Lastly.concat hlast (untouched a ha))
          (And.imp_right fun hlast => Lastly.concat hlast (untouched b hb))

/-- Every history is ordered. -/
theorem ordered_after (calls : List CacheCall) : (after calls).Ordered := by
  induction calls using List.reverseRecOn with
  | nil => exact ordered_empty
  | append_singleton calls call ih =>
    rw [after_concat]
    exact ih.make call

end CacheHistory

/-! ## Trimming -/

/-- Without the first of its elements a list is what comes after them. -/
theorem filter_notMem_take {l : List AttributeId} (h : l.Nodup) (n : Nat) :
    (l.filter fun id => !(l.take n).contains id) = l.drop n := by
  rw [← List.take_append_drop n l, List.nodup_append] at h
  conv_lhs => arg 2; rw [← List.take_append_drop n l]
  have hfront : ((l.take n).filter fun id => !(l.take n).contains id) = [] := by
    simp [List.filter_eq_nil_iff]
  have hback : ((l.drop n).filter fun id => !(l.take n).contains id) = l.drop n := by
    refine List.filter_eq_self.mpr fun id hid => ?_
    have hout : id ∉ l.take n := fun hin => h.2.2 id hin id hid rfl
    simpa using hout
  rw [List.filter_append, hfront, hback, List.nil_append]

namespace AttributeCache

/-- The extended attributes in the cache, the least recently used first. -/
def agedIds (c : AttributeCache) : List AttributeId := c.byAge.map Prod.fst

variable {c : AttributeCache}

/-- Ordering the entries by age leaves none out. -/
theorem mem_byAge {id : AttributeId} {v : CachedValue} :
    (id, v) ∈ c.byAge ↔ c.extended.get? id = some v := by
  rw [byAge, List.mem_mergeSort, Table.get?_eq_some_iff_mem]

/-- No attribute comes twice in the order. -/
theorem nodup_agedIds (c : AttributeCache) : c.agedIds.Nodup :=
  ((List.mergeSort_perm _ _).map Prod.fst).nodup_iff.mpr c.extended.nodup

/-- The order has as many attributes as the cache. -/
theorem length_agedIds (c : AttributeCache) : c.agedIds.length = c.extendedSize := by
  rw [agedIds, List.length_map, byAge, List.length_mergeSort]
  rfl

/-- Exactly the extended attributes in the cache are in the order. -/
theorem mem_agedIds {id : AttributeId} : id ∈ c.agedIds ↔ ∃ v, c.extended.get? id = some v := by
  simp only [agedIds, List.mem_map, Prod.exists, exists_and_right, exists_eq_right, mem_byAge]

/-- Earlier entries have earlier stamps. -/
theorem pairwise_byAge (c : AttributeCache) :
    c.byAge.Pairwise fun a b => a.2.lastUsed ≤ b.2.lastUsed := by
  have hsorted : c.byAge.Pairwise fun a b => decide (a.2.lastUsed ≤ b.2.lastUsed) = true := by
    refine List.pairwise_mergeSort (fun a b d hab hbd => ?_) (fun a b => ?_) c.extended.entries
    · simp only [decide_eq_true_eq] at *
      omega
    · simp only [Bool.or_eq_true, decide_eq_true_eq]
      omega
  exact hsorted.imp of_decide_eq_true

/-- Trimming keeps as many entries as are allowed. -/
theorem extendedSize_trim (c : AttributeCache) (max : Nat) :
    (c.trim max).1.extendedSize = min max c.agedIds.length := by
  have hkept : (c.trim max).1.extendedSize = (c.agedIds.filter fun id =>
      !(c.agedIds.take (c.extended.size - max)).contains id).length := by
    have hperm := (List.mergeSort_perm c.extended.entries fun a b =>
      decide (a.2.lastUsed ≤ b.2.lastUsed)).filter fun e =>
        !(c.agedIds.take (c.extended.size - max)).contains e.1
    rw [agedIds, List.filter_map, List.length_map]
    simp only [trim, extendedSize, Table.size, Table.filter, List.map_take]
    exact hperm.length_eq.symm
  have hsize : c.extended.size = c.agedIds.length := c.length_agedIds.symm
  rw [hkept, filter_notMem_take c.nodup_agedIds, List.length_drop, hsize]
  omega

/-- Trimming keeps the core values and the entries at the end of the order. -/
theorem peek_trim (c : AttributeCache) (max : Nat) (id : AttributeId) :
    (c.trim max).1.peek id =
      if id.isCore = true ∨ id ∈ c.agedIds.drop (c.agedIds.length - max) then c.peek id
      else none := by
  cases hcore : id.isCore with
  | true => simp [peek_trim_of_core c max hcore]
  | false =>
    have hlength : c.extended.size = c.agedIds.length := c.length_agedIds.symm
    simp only [trim, peek, hcore, Bool.false_eq_true, ↓reduceIte, false_or, Table.get?_filter,
      hlength, List.map_take]
    cases hv : c.extended.get? id with
    | none => simp
    | some v =>
      have hsplit := c.nodup_agedIds
      have hmem : id ∈ c.agedIds := mem_agedIds.mpr ⟨v, hv⟩
      rw [← List.take_append_drop (c.agedIds.length - max) c.agedIds] at hsplit hmem
      have hapart := (List.nodup_append.mp hsplit).2.2
      rcases List.mem_append.mp hmem with hin | hin
      · have hout : id ∉ c.agedIds.drop (c.agedIds.length - max) :=
          fun hdrop => hapart id hin id hdrop rfl
        rw [if_neg hout]
        simpa [Option.filter, agedIds] using hin
      · have hout : id ∉ c.agedIds.take (c.agedIds.length - max) :=
          fun htake => hapart id htake id hin rfl
        rw [if_pos hin]
        have hkept : id ∉ (c.byAge.map Prod.fst).take (c.agedIds.length - max) := hout
        simp [Option.filter, hkept]

end AttributeCache

namespace CacheHistory

open AttributeCache

/-- The last value that was stored for an attribute is resident until a call may drop it. -/
theorem peek_after {calls : List CacheCall} {id : AttributeId} {v : AttributeValue}
    (hv : v ≠ nullValue) (h : Lastly (CacheEvent.Stores id v)
      (fun e => (∃ w, e.Stores id w) ∨ e.call.MayDrop id) (after calls).events) :
    (after calls).cache.peek id = some v := by
  induction calls using List.reverseRecOn with
  | nil =>
    obtain ⟨before, e, later, hnil, -⟩ := h
    simp [after] at hnil
  | append_singleton calls call ih =>
    rw [after_concat] at h ⊢
    rcases h.of_concat with hstored | ⟨hearlier, hkept⟩
    · exact peek_make_of_stores hv hstored
    · obtain ⟨hnone, hdrop⟩ := not_or.mp hkept
      exact peek_make_of_kept (ih hearlier) (fun w hw => hnone ⟨w, hw⟩) hdrop

/-- After any calls of a cache its extended attributes can be listed in the order in which they were
last touched, and whatever the bound, trimming keeps the core values and the last entries of that
list up to the bound, drops the rest and tells how many those are. A call drops an attribute only if
it removes it, stores no value for it, trims, or clears, and but for trimming these calls do drop it.
A value that is set, or inserted where there is none, is resident until a call may drop it. And every
resident value is the one that was stored last for its attribute, and is not the value that stands
for none. -/
theorem trim_after (calls : List CacheCall) :
    let h := after calls
    (∃ order : List AttributeId, order.Nodup ∧
      (∀ id, id ∈ order ↔ id.isExtended = true ∧ h.cache.contains id = true) ∧
      order.Pairwise (fun a b => h.TouchedAfter b a) ∧
      ∀ max, (h.cache.trim max).2 = order.length - max ∧
        (h.cache.trim max).1.extendedSize = min max order.length ∧
        ∀ id, (h.cache.trim max).1.peek id =
          if id.isCore = true ∨ id ∈ order.drop (order.length - max) then h.cache.peek id
          else none) ∧
    (∀ call id, h.cache.contains id = true → (h.make call).cache.contains id = false →
      call.MayDrop id) ∧
    (∀ call id, call.Drops id → (h.make call).cache.peek id = none) ∧
    (∀ id v, v ≠ nullValue →
      Lastly (CacheEvent.Stores id v) (fun e => (∃ w, e.Stores id w) ∨ e.call.MayDrop id) h.events →
      h.cache.peek id = some v) ∧
    (∀ id, (h.cache.get id).2 = h.cache.peek id) ∧
    (∀ id v, (h.cache.insertIfAbsent id v).2 = (decide (v ≠ nullValue) && !h.cache.contains id)) ∧
    ∀ id v, h.cache.peek id = some v → v ≠ nullValue ∧ h.LastStored id v := by
  intro h
  have hordered : h.Ordered := ordered_after calls
  refine ⟨⟨h.cache.agedIds, h.cache.nodup_agedIds, fun id => ?_, ?_, fun max => ⟨?_, ?_, ?_⟩⟩,
    fun call id hid hgone => ?_, fun call id hcall => peek_make_of_drops hcall,
    fun id v hv hlast => peek_after hv hlast, fun id => rfl,
    h.cache.insertIfAbsent_snd, hordered.stored⟩
  · rw [mem_agedIds, AttributeId.isExtended, Bool.not_eq_true']
    constructor
    · rintro ⟨v, hv⟩
      have hcore := hordered.extended id v hv
      exact ⟨hcore, by simp [contains, peek, hcore, hv]⟩
    · rintro ⟨hcore, hresident⟩
      simpa [contains, peek, hcore, Option.isSome_iff_exists] using hresident
  · rw [agedIds, List.pairwise_map]
    have hnodup := List.pairwise_map.mp h.cache.nodup_agedIds
    refine (h.cache.pairwise_byAge.and hnodup).imp_of_mem fun {a b} ha hb hab => ?_
    -- the stamps differ, so the entry that stands first was touched first
    rcases hordered.apart a.1 b.1 a.2 b.2 hab.2 (mem_byAge.mp ha) (mem_byAge.mp hb) with
      hlater | hearlier
    · exact hlater.2
    · exact absurd hab.1 (Nat.not_le_of_lt hearlier.1)
  · rw [length_agedIds]
    rfl
  · exact h.cache.extendedSize_trim max
  · exact h.cache.peek_trim max
  · by_contra hnot
    rw [CacheHistory.make] at hgone
    rw [contains_make hid hnot] at hgone
    cases hgone

end CacheHistory

end Segments
