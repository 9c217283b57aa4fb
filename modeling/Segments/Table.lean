/-!
# Finite tables

A table is a list of key and value pairs whose keys differ. Entries keep the order in which
their keys were last put in; `size` is therefore the number of keys. The laws say what each
operation does to `get?`, the one view through which tables are read.
-/

namespace Segments

universe u v w

/-- A finite map given by its entries; no key occurs twice. -/
structure Table (κ : Type u) (α : Type v) where
  /-- The entries, each key once. -/
  entries : List (κ × α)
  /-- No key occurs twice. -/
  nodup : (entries.map Prod.fst).Nodup

namespace Table

variable {κ : Type u} {α : Type v} {β : Type w} [DecidableEq κ]

/-- The table without entries. -/
def empty : Table κ α := ⟨[], by simp⟩

instance : EmptyCollection (Table κ α) := ⟨empty⟩

instance : Inhabited (Table κ α) := ⟨empty⟩

instance [DecidableEq α] : DecidableEq (Table κ α) := fun s t =>
  if h : s.entries = t.entries then
    isTrue (by cases s; cases t; simp_all)
  else
    isFalse (fun e => h (by rw [e]))

/-- The value of a key. -/
def get? (t : Table κ α) (k : κ) : Option α :=
  t.entries.lookup k

/-- Whether a key has a value. -/
def contains (t : Table κ α) (k : κ) : Bool :=
  (t.get? k).isSome

/-- The number of entries. -/
def size (t : Table κ α) : Nat := t.entries.length

/-- Whether there is no entry. -/
def isEmpty (t : Table κ α) : Bool := t.entries.isEmpty

/-- The keys in the order of the entries. -/
def keys (t : Table κ α) : List κ := t.entries.map Prod.fst

/-- The values in the order of the entries. -/
def values (t : Table κ α) : List α := t.entries.map Prod.snd

omit [DecidableEq κ] in
theorem nodup_filter (t : Table κ α) (p : κ × α → Bool) :
    ((t.entries.filter p).map Prod.fst).Nodup :=
  t.nodup.sublist ((List.filter_sublist).map Prod.fst)

/-- The entries that satisfy a condition. -/
def filter (t : Table κ α) (p : κ → α → Bool) : Table κ α :=
  ⟨t.entries.filter fun e => p e.1 e.2, t.nodup_filter _⟩

/-- The table without a key. -/
def erase (t : Table κ α) (k : κ) : Table κ α :=
  t.filter fun j _ => decide (j ≠ k)

theorem nodup_insert (t : Table κ α) (k : κ) (a : α) :
    (((t.erase k).entries ++ [(k, a)]).map Prod.fst).Nodup := by
  rw [List.map_append, List.nodup_append]
  refine ⟨(t.erase k).nodup, by simp, ?_⟩
  intro x hx y hy
  simp only [erase, filter, List.mem_map, List.mem_filter] at hx
  obtain ⟨e, ⟨_, he⟩, rfl⟩ := hx
  simp only [List.map_cons, List.map_nil, List.mem_singleton] at hy
  subst hy
  simpa using he

/-- The table in which a key has the given value. -/
def insert (t : Table κ α) (k : κ) (a : α) : Table κ α :=
  ⟨(t.erase k).entries ++ [(k, a)], t.nodup_insert k a⟩

/-- The table in which the value of a key, if it has one, is changed by a function. -/
def modify (t : Table κ α) (k : κ) (f : α → α) : Table κ α :=
  ⟨t.entries.map fun e => if e.1 = k then (e.1, f e.2) else e, by
    have h : (t.entries.map fun e => if e.1 = k then (e.1, f e.2) else e).map Prod.fst
        = t.entries.map Prod.fst := by
      rw [List.map_map]
      apply List.map_congr_left
      intro e _
      simp only [Function.comp_apply]
      split <;> rfl
    rw [h]
    exact t.nodup⟩

/-- The table that results from putting in entries one after another. -/
def ofList (entries : List (κ × α)) : Table κ α :=
  entries.foldl (fun t e => t.insert e.1 e.2) empty

theorem lookup_filter_ne (l : List (κ × α)) (k j : κ) :
    (l.filter fun e => decide (e.1 ≠ k)).lookup j = if j = k then none else l.lookup j := by
  induction l with
  | nil => simp
  | cons e rest ih =>
    obtain ⟨i, a⟩ := e
    by_cases hi : i = k
    · rw [List.filter_cons_of_neg (by simpa using hi), ih]
      by_cases hj : j = k
      · rw [if_pos hj, if_pos hj]
      · have : (j == i) = false := by simpa [hi] using hj
        rw [if_neg hj, if_neg hj, List.lookup_cons, this]
    · rw [List.filter_cons_of_pos (by simpa using hi), List.lookup_cons, List.lookup_cons, ih]
      by_cases hj : j = i
      · subst hj; simp [hi]
      · have : (j == i) = false := by simpa using hj
        simp [this]

@[simp] theorem get?_empty (k : κ) : (empty : Table κ α).get? k = none := rfl

/-- Erasing removes the one key and no other. -/
theorem get?_erase (t : Table κ α) (k j : κ) :
    (t.erase k).get? j = if j = k then none else t.get? j :=
  lookup_filter_ne t.entries k j

/-- Inserting gives the one key its value and leaves every other key alone. -/
theorem get?_insert (t : Table κ α) (k j : κ) (a : α) :
    (t.insert k a).get? j = if j = k then some a else t.get? j := by
  have key : (t.insert k a).get? j = (((t.erase k).entries.lookup j).or
      (([(k, a)] : List (κ × α)).lookup j)) := by
    simp [get?, insert, List.lookup_append]
  rw [key]
  have he : (t.erase k).entries.lookup j = if j = k then none else t.get? j := get?_erase t k j
  rw [he]
  by_cases hj : j = k
  · subst hj; simp
  · have : (j == k) = false := by simpa using hj
    simp [hj, List.lookup_cons, this]

/-- Modifying changes the value of the one key and leaves every other key alone. -/
theorem get?_modify (t : Table κ α) (k j : κ) (f : α → α) :
    (t.modify k f).get? j = if j = k then (t.get? j).map f else t.get? j := by
  unfold get? modify
  simp only
  induction t.entries with
  | nil => simp
  | cons e rest ih =>
    obtain ⟨i, a⟩ := e
    by_cases hj : j = i
    · subst hj
      by_cases hk : j = k <;> simp [hk]
    · have hji : (j == i) = false := by simpa using hj
      by_cases hi : i = k
      · simp only [List.map_cons, hi, ↓reduceIte]
        rw [List.lookup_cons, List.lookup_cons]
        have : (j == k) = false := by rw [← hi]; exact hji
        simp only [this]
        exact ih
      · simp only [List.map_cons, hi, ↓reduceIte]
        rw [List.lookup_cons, List.lookup_cons]
        simp only [hji]
        exact ih

/-- A key is among the keys exactly when it has a value. -/
theorem mem_keys_iff (t : Table κ α) (k : κ) : k ∈ t.keys ↔ t.contains k = true := by
  unfold keys contains get?
  induction t.entries with
  | nil => simp
  | cons e rest ih =>
    obtain ⟨i, a⟩ := e
    by_cases hk : k = i
    · subst hk; simp
    · have : (k == i) = false := by simpa using hk
      simp [List.lookup_cons, this, hk, ← ih]

end Table

end Segments
