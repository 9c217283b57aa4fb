import Segments.Table

/-!
# Further laws of tables

A table is read through `get?`: entries, filters and maps over the values are stated in terms of
that one view.
-/

namespace Segments.Table

universe u v w

variable {κ : Type u} {α : Type v} {β : Type w} [DecidableEq κ]

theorem lookup_eq_some_iff_mem {l : List (κ × α)} (hl : (l.map Prod.fst).Nodup) {k : κ} {a : α} :
    l.lookup k = some a ↔ (k, a) ∈ l := by
  induction l with
  | nil => simp
  | cons e rest ih =>
    obtain ⟨j, b⟩ := e
    obtain ⟨hnot, hrest⟩ := List.nodup_cons.mp hl
    by_cases hk : k = j
    · subst hk
      have hmem : (k, a) ∉ rest := fun h => hnot (List.mem_map.mpr ⟨_, h, rfl⟩)
      simp only [List.lookup_cons_self, Option.some.injEq, List.mem_cons, Prod.mk.injEq, true_and,
        hmem, or_false]
      exact eq_comm
    · have hne : (k == j) = false := by simpa using hk
      rw [List.lookup_cons, hne]
      simp [ih hrest, hk]

/-- A key has a value exactly when the pair is an entry. -/
theorem get?_eq_some_iff_mem (t : Table κ α) {k : κ} {a : α} :
    t.get? k = some a ↔ (k, a) ∈ t.entries :=
  lookup_eq_some_iff_mem t.nodup

/-- Filtering keeps the values that satisfy the condition. -/
theorem get?_filter (t : Table κ α) (p : κ → α → Bool) (k : κ) :
    (t.filter p).get? k = (t.get? k).filter (p k) := by
  ext a
  rw [get?_eq_some_iff_mem, Option.filter_eq_some_iff, get?_eq_some_iff_mem]
  simp [filter]

theorem lookup_map_values (l : List (κ × α)) (f : α → β) (k : κ) :
    (l.map fun e => (e.1, f e.2)).lookup k = (l.lookup k).map f := by
  induction l with
  | nil => rfl
  | cons e rest ih =>
    obtain ⟨j, a⟩ := e
    by_cases hk : k = j
    · subst hk
      simp
    · have hne : (k == j) = false := by simpa using hk
      simp [List.lookup_cons, hne, ih]

/-- An entry makes a table larger by one, unless its key was there. -/
theorem size_insert (t : Table κ α) (k : κ) (a : α) :
    (t.insert k a).size = if t.contains k then t.size else t.size + 1 := by
  have hkeys : (t.erase k).keys = t.keys.erase k := by
    rw [keys, keys, List.Nodup.erase_eq_filter t.nodup, List.filter_map]
    exact congrArg _ (List.filter_congr fun e _ => by by_cases he : e.1 = k <;> simp [he])
  have herased : (t.erase k).size = (t.keys.erase k).length := by
    rw [← hkeys, keys, List.length_map, size]
  have hlength : t.keys.length = t.size := List.length_map _
  have hsize : (t.insert k a).size = (t.erase k).size + 1 := List.length_append
  rw [hsize, herased, List.length_erase]
  simp only [t.mem_keys_iff, hlength]
  split
  · next hk =>
    have hpos := List.length_pos_of_mem ((t.mem_keys_iff k).mpr hk)
    omega
  · rfl

/-- An entry makes no table smaller. -/
theorem size_le_insert (t : Table κ α) (k : κ) (a : α) : t.size ≤ (t.insert k a).size := by
  rw [size_insert]
  split <;> omega

/-- A key is in a table exactly if it has a value. -/
theorem contains_iff_get? (t : Table κ α) (k : κ) :
    t.contains k = true ↔ ∃ a, t.get? k = some a := by
  rw [contains, Option.isSome_iff_exists]

end Segments.Table
