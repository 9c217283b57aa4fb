import Segments.Proofs.Verification

/-!
# What a command leaves behind

A command holds the lock of a store directory while it copies the files, and works on the copies.
The lock is given back, but the lock file stays: it is made when there is nothing at its place,
whether the command then succeeds or fails. Nothing else in the tree is ever changed.
-/

namespace Segments

/-- Copying the files of a store leaves a lock file. -/
theorem Snapshot.fst_load (t : FileTree) (path : String) :
    (load t path).1 = t.withEmpty (t.missingLock? path) := by
  unfold load
  cases hdirectory : t.findDirectory? path with
  | none =>
    have hnone : t.missingLock? path = none := by
      rw [FileTree.missingLock?, hdirectory]
      rfl
    rw [hnone]
    rfl
  | some place =>
    rw [FileTree.acquire_of_directory hdirectory false]
    rcases FileTree.lockDirectory_cases hdirectory with ⟨-, e, he⟩ | ⟨hfree, hlocked⟩
    · simp [he]
    · rw [← FileTree.locks_withEmpty t (t.missingLock? path)] at hfree hlocked
      simp only [Option.isNone_some, Bool.false_eq_true, if_false, hlocked]
      exact FileTree.unlock_locked hfree

namespace Command

/-- The place of the lock file that a command makes. -/
def makes (t : FileTree) (path : Option String) (c : Command) : Option FilePlace :=
  match c with
  | version => none
  | _ => path.bind t.missingLock?

variable (t : FileTree) (path : Option String) (c : Command)

/-- A command that needs a store leaves a lock file where there was none. -/
theorem fst_onStore (act : Snapshot → CommandResult) :
    (c.onStore t path act).1 = t.withEmpty (path.bind t.missingLock?) := by
  cases path with
  | none => rfl
  | some path =>
    rw [onStore, Option.bind_some, ← Snapshot.fst_load, Snapshot.withSnapshot]
    rcases Snapshot.load t path with ⟨t', e | s⟩ <;> rfl

/-- A command leaves a lock file where there was none, and nothing else. -/
theorem fst_run : (run t path c).1 = t.withEmpty (c.makes t path) := by
  cases c with
  | inspect shown format => exact fst_onStore t path _ _
  | verify scope => exact fst_onStore t path _ _
  | dump limit offset format => exact fst_onStore t path _ _
  | version => rfl

/-- It makes no lock file that it has made before. -/
theorem makes_after : c.makes (t.withEmpty (c.makes t path)) path = none := by
  cases path with
  | none => cases c <;> rfl
  | some path =>
    cases c with
    | version => rfl
    | inspect shown format => exact FileTree.missingLock?_withEmpty t path
    | verify scope => exact FileTree.missingLock?_withEmpty t path
    | dump limit offset format => exact FileTree.missingLock?_withEmpty t path

/-- A lock file is made only by a command that needs a store, in the directory of the store, where
there is nothing. -/
theorem makes_eq_some_iff {lock : FilePlace} : c.makes t path = some lock ↔
    c ≠ .version ∧ ∃ p place, path = some p ∧ t.findDirectory? p = some place ∧
      t.node? lock = none ∧ lock = place ++ [StoreDirectory.lockName] := by
  have hbind : path.bind t.missingLock? = some lock ↔
      ∃ p place, path = some p ∧ t.findDirectory? p = some place ∧
        t.node? lock = none ∧ lock = place ++ [StoreDirectory.lockName] := by
    cases path with
    | none => simp
    | some p => simp [FileTree.missingLock?_eq_some_iff]
  cases c with
  | version => simp [makes]
  | inspect shown format => simpa [makes] using hbind
  | verify scope => simpa [makes] using hbind
  | dump limit offset format => simpa [makes] using hbind

theorem node?_after (there : FilePlace) : (run t path c).1.node? there =
    if c.makes t path = some there then some (.file []) else t.node? there := by
  rw [fst_run]
  refine FileTree.node?_withEmpty ?_ there
  intro hmade
  obtain ⟨-, p, place, -, -, -, hroot⟩ := (makes_eq_some_iff t path c).mp hmade
  exact absurd hroot.symm (by simp)

/-- A command that needs a store makes the lock file of the directory of the store if there is
nothing at its place, whether the command succeeds or fails. What is at any other place stays there
with its bytes, and so does what is at the place of the lock file if there is something. No lock
stays behind, and the same command leaves everything as it is when it is run again. -/
theorem run_footprint :
    let after := (run t path c).1
    (∀ there, after.node? there =
        if c.makes t path = some there then some (.file []) else t.node? there) ∧
      (∀ lock, c.makes t path = some lock ↔ c ≠ .version ∧ ∃ p place, path = some p ∧
        t.findDirectory? p = some place ∧ t.node? lock = none ∧
          lock = place ++ [StoreDirectory.lockName]) ∧
      (after = t ↔ c.makes t path = none) ∧ after.locks = t.locks ∧
      (run after path c).1 = after := by
  intro after
  have hafter : after = t.withEmpty (c.makes t path) := fst_run t path c
  refine ⟨node?_after t path c, fun lock => makes_eq_some_iff t path c, ?_, ?_, ?_⟩
  · constructor
    · intro hsame
      by_contra hmade
      obtain ⟨lock, hlock⟩ := Option.ne_none_iff_exists'.mp hmade
      obtain ⟨-, p, place, -, -, hnone, -⟩ := (makes_eq_some_iff t path c).mp hlock
      have hthere := node?_after t path c lock
      rw [if_pos hlock] at hthere
      change after.node? lock = _ at hthere
      rw [hsame, hnone] at hthere
      cases hthere
    · intro hnone
      rw [hafter, hnone]
      rfl
  · rw [hafter, FileTree.locks_withEmpty]
  · have hagain : c.makes after path = none := hafter ▸ makes_after t path c
    rw [fst_run, hagain]
    rfl

/-- Verifying a store whose journal has a torn tail leaves the journal alone, although the tail is
cut off the copy, but adds a file to the directory. -/
theorem run_makes_lock :
    let lock := ["s", StoreDirectory.lockName]
    let journal := Frame.wholes [.create 1 "a" []] ++ [0x53]
    let after := (run FileTree.tornStore (some "s") (.verify .all)).1
    FileTree.tornStore.node? lock = none ∧ after.node? lock = some (.file []) ∧
      after.bytesAt ["s", StoreDirectory.journalName] = journal ∧
      (Contents.openStore ⟨journal, .log []⟩ .standard 0).1.journal =
        Frame.wholes [.create 1 "a" []] := by
  intro lock journal after
  have hstore : FileTree.tornStore.HasStore "s" ["s"] journal [] := FileTree.hasStore_holding _ _
  have hmade : makes FileTree.tornStore (some "s") (.verify .all) = some lock :=
    (makes_eq_some_iff _ _ _).mpr ⟨nofun, "s", ["s"], rfl, hstore.directory, rfl, rfl⟩
  have hjournal : after.node? ["s", StoreDirectory.journalName] = some (.file journal) := by
    rw [node?_after, hmade]
    rfl
  refine ⟨rfl, by rw [node?_after, if_pos hmade], by rw [FileTree.bytesAt, hjournal], ?_⟩
  have hframable : ∀ r ∈ [Record.create 1 "a" []], r.Framable := by
    simp only [List.forall_mem_singleton]
    exact ⟨by decide, by decide⟩
  have hscan : Scan.ofJournal journal = ⟨Scan.placed 0 [.create 1 "a" []],
      (Frame.wholes [.create 1 "a" []]).length, none⟩ :=
    Scan.ofJournal_wholes hframable Frame.torn_singleton
  have hstop : (Scan.ofJournal journal).stop = none := congrArg Scan.stop hscan
  obtain ⟨r, hsteps⟩ : ∃ r, (Replayed.start.steps (Scan.ofJournal journal).records).2 = .ok r := by
    rw [hscan]
    exact ⟨_, rfl⟩
  obtain ⟨events, hopened, -⟩ := IndexLog.logs_empty.openLog
  obtain ⟨store, reports, n, hopening⟩ :=
    Contents.exists_openStore_eq hopened hstop hsteps .standard 0
  refine (congrArg (fun opening => opening.1.journal) hopening).trans ?_
  rw [hscan]
  exact List.take_left

end Command

end Segments
