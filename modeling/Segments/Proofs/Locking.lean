import Segments.Directory.Store

/-!
# Locking a store directory

Whoever works with a store directory holds the lock on its lock file. Taking the lock makes this
file where there is nothing, which disturbs no way through the tree, and giving the lock back leaves
it. Taking fails only where a directory stands in its place or somebody else holds the lock.
-/

namespace Segments

namespace FileTree

variable {t : FileTree} {path : String} {place there : FilePlace}

theorem node?_put_of_ne {here : FilePlace} (h : there ≠ here) (node : FileNode) :
    (t.put here node).node? there = t.node? there := by
  unfold node? put
  rw [Table.get?_insert, if_neg h]

theorem node?_put_self (h : place ≠ []) (node : FileNode) :
    (t.put place node).node? place = some node := by
  rw [node?, put, if_neg h, Table.get?_insert, if_pos rfl]

section

variable {new : FilePlace} {node found : FileNode}

/-- What is at a place stays there when something is put where nothing was. -/
theorem node?_put_of_some (hnew : t.node? new = none) (h : t.node? there = some found) :
    (t.put new node).node? there = some found := by
  have hne : there ≠ new := by
    rintro rfl
    rw [hnew] at h
    cases h
  rw [node?_put_of_ne hne, h]

theorem exists?_put (hnew : t.node? new = none) (h : t.exists? there = true) :
    (t.put new node).exists? there = true := by
  obtain ⟨found, hfound⟩ := Option.isSome_iff_exists.mp h
  rw [exists?, node?_put_of_some hnew hfound]
  rfl

theorem isDirectory_put (hnew : t.node? new = none) (h : t.isDirectory there = true) :
    (t.put new node).isDirectory there = true := by
  rw [isDirectory, node?_put_of_some hnew (eq_of_beq h)]
  rfl

/-- What is put where nothing was is on no way that leads somewhere. -/
theorem walk_put (hnew : t.node? new = none) {here : FilePlace} {names : List String}
    (h : t.walk here names = .ok place) : (t.put new node).walk here names = .ok place := by
  induction names generalizing here with
  | nil => exact h
  | cons name rest ih =>
    rw [walk] at h ⊢
    cases hnext : t.enter here name with
    | error e => simp [hnext] at h
    | ok next =>
      have hdirectory : t.isDirectory here = true := by
        cases hhere : t.isDirectory here with
        | true => rfl
        | false => simp [enter, hhere] at hnext
      have hsame : (t.put new node).enter here name = t.enter here name := by
        rw [enter, enter, isDirectory_put hnew hdirectory, hdirectory]
      simp only [hsame, hnext] at h ⊢
      split at h
      · next hthere => rw [if_pos (exists?_put hnew hthere), ih h]
      · cases h

/-- A path that leads somewhere leads to the same place. -/
theorem follow_put (hnew : t.node? new = none) {p : TreePath} (h : t.follow p = .ok place) :
    (t.put new node).follow p = .ok place := by
  rw [follow] at h ⊢
  cases hwalk : t.walk [] p.names with
  | error e => simp [hwalk] at h
  | ok last =>
    simp only [hwalk, walk_put hnew hwalk] at h ⊢
    split at h
    · next hend =>
      rw [if_pos (hend.imp_right (isDirectory_put hnew)), h]
    · cases h

/-- A path leads to the same directory when something is put where nothing was. -/
theorem findDirectory?_put (hnew : t.node? new = none) (h : t.findDirectory? path = some place) :
    (t.put new node).findDirectory? path = some place := by
  obtain ⟨hfound, hdirectory⟩ := Option.filter_eq_some_iff.mp h
  rw [findDirectory?, Option.filter_eq_some_iff]
  refine ⟨?_, isDirectory_put hnew hdirectory⟩
  rw [find?] at hfound ⊢
  cases hpath : TreePath.ofText? path with
  | error e => simp [hpath, Except.bind, Except.toOption] at hfound
  | ok p =>
    simp only [hpath, Except.bind] at hfound ⊢
    cases hfollow : t.follow p with
    | error e => simp [hfollow, Except.toOption] at hfound
    | ok last =>
      rw [hfollow] at hfound
      rw [follow_put hnew hfollow]
      exact hfound

end

/-- The place of the lock file that has to be made to lock the directory at a path. -/
def missingLock? (t : FileTree) (path : String) : Option FilePlace :=
  ((t.findDirectory? path).map fun place => place ++ [StoreDirectory.lockName]).filter
    fun place => !t.exists? place

/-- The tree with an empty file more, if a place is given for it. -/
def withEmpty (t : FileTree) (made : Option FilePlace) : FileTree :=
  match made with
  | none => t
  | some place => t.put place (.file [])

@[simp] theorem locks_withEmpty (t : FileTree) (made : Option FilePlace) :
    (t.withEmpty made).locks = t.locks := by
  cases made <;> rfl

/-- A lock file is made in a directory, where there is nothing. -/
theorem missingLock?_eq_some_iff {lock : FilePlace} : t.missingLock? path = some lock ↔
    ∃ place, t.findDirectory? path = some place ∧ t.node? lock = none ∧
      lock = place ++ [StoreDirectory.lockName] := by
  rw [missingLock?, Option.filter_eq_some_iff, Option.map_eq_some_iff]
  have hfree : (!t.exists? lock) = true ↔ t.node? lock = none := by
    rw [exists?, Bool.not_eq_true', Option.isSome_eq_false_iff, Option.isNone_iff_eq_none]
  rw [hfree]
  constructor
  · rintro ⟨⟨place, hdirectory, hlock⟩, hnone⟩
    exact ⟨place, hdirectory, hnone, hlock.symm⟩
  · rintro ⟨place, hdirectory, hnone, hlock⟩
    exact ⟨⟨place, hdirectory, hlock.symm⟩, hnone⟩

theorem missingLock?_ne_root : t.missingLock? path ≠ some [] := by
  intro h
  obtain ⟨place, -, -, heq⟩ := missingLock?_eq_some_iff.mp h
  simp at heq

/-- Only the place of the new file has something else at it. -/
theorem node?_withEmpty {made : Option FilePlace} (hmade : made ≠ some []) (there : FilePlace) :
    (t.withEmpty made).node? there =
      if made = some there then some (.file []) else t.node? there := by
  cases made with
  | none => rfl
  | some place =>
    have hplace : place ≠ [] := fun h => hmade (congrArg some h)
    by_cases hthere : there = place
    · obtain rfl := hthere
      rw [if_pos rfl, withEmpty, node?_put_self hplace]
    · rw [if_neg fun h => hthere (Option.some.inj h).symm, withEmpty, node?_put_of_ne hthere]

/-- A lock that is given back leaves the tree as it was before it was taken. -/
theorem unlock_locked (h : place ∉ t.locks) :
    unlock { t with locks := place :: t.locks } place = t := by
  have hrest : t.locks.filter (fun other => decide (other ≠ place)) = t.locks :=
    List.filter_eq_self.mpr fun other hother =>
      decide_eq_true fun heq => h (heq ▸ hother)
  rw [unlock, List.filter_cons_of_neg (by simp), hrest]

theorem missingLock?_of_directory (h : t.findDirectory? path = some place) :
    t.missingLock? path = if t.exists? (place ++ [StoreDirectory.lockName]) then none
      else some (place ++ [StoreDirectory.lockName]) := by
  rw [missingLock?, h]
  cases hlock : t.exists? (place ++ [StoreDirectory.lockName]) <;>
    simp [Option.filter, hlock]

/-- A missing lock file is made. The directory is locked then, unless there is a directory in the
place of the lock file or somebody else holds the lock. -/
theorem lockDirectory_cases (h : t.findDirectory? path = some place) :
    ((t.isDirectory (place ++ [StoreDirectory.lockName]) = true ∨
        place ++ [StoreDirectory.lockName] ∈ t.locks) ∧
      ∃ e, t.lockDirectory ⟨path, place⟩ = (t.withEmpty (t.missingLock? path), .error e)) ∨
      place ++ [StoreDirectory.lockName] ∉ t.locks ∧
        t.lockDirectory ⟨path, place⟩ =
          ({ t.withEmpty (t.missingLock? path) with
            locks := (place ++ [StoreDirectory.lockName]) :: t.locks }, .ok ⟨path, place⟩) := by
  have hlock : StoreDirectory.lockPlace ⟨path, place⟩ = place ++ [StoreDirectory.lockName] := rfl
  have hmade : t.withEmpty (t.missingLock? path) =
      if t.exists? (place ++ [StoreDirectory.lockName]) then t
      else t.put (place ++ [StoreDirectory.lockName]) (.file []) := by
    rw [missingLock?_of_directory h]
    split <;> rfl
  rw [lockDirectory, hlock, ← hmade]
  by_cases hdirectory : t.isDirectory (place ++ [StoreDirectory.lockName]) = true
  · have hthere : t.exists? (place ++ [StoreDirectory.lockName]) = true := by
      rw [exists?, eq_of_beq hdirectory]
      rfl
    rw [if_pos hthere] at hmade
    exact Or.inl ⟨Or.inl hdirectory, _, by rw [if_pos hdirectory, hmade]⟩
  · rw [if_neg hdirectory]
    dsimp only
    rw [lock?, locks_withEmpty]
    by_cases hheld : place ++ [StoreDirectory.lockName] ∈ t.locks
    · exact Or.inl ⟨Or.inr hheld, _, by rw [if_pos hheld]⟩
    · exact Or.inr ⟨hheld, by rw [if_neg hheld]⟩

/-- Where there is a directory, only its lock remains to be taken. -/
theorem acquire_of_directory (h : t.findDirectory? path = some place) (create : Bool) :
    t.acquire path create = t.lockDirectory ⟨path, place⟩ := by
  have hfound : t.find? path = some place := (Option.filter_eq_some_iff.mp h).1
  rw [acquire, prepare, if_pos (by rw [hfound]; rfl)]
  simp only [h]

/-- Once a missing lock file was made, none is missing. -/
theorem missingLock?_withEmpty (t : FileTree) (path : String) :
    (t.withEmpty (t.missingLock? path)).missingLock? path = none := by
  cases hmade : t.missingLock? path with
  | none => exact hmade
  | some lock =>
    obtain ⟨place, hdirectory, hnew, rfl⟩ := missingLock?_eq_some_iff.mp hmade
    have hthere : (t.put (place ++ [StoreDirectory.lockName]) (.file [])).exists?
        (place ++ [StoreDirectory.lockName]) = true := by
      rw [exists?, node?_put_self (by simp)]
      rfl
    exact (missingLock?_of_directory (findDirectory?_put hnew hdirectory)).trans (if_pos hthere)

end FileTree

end Segments
