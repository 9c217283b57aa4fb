import Segments.Console.Program
import Segments.Proofs.Closing
import Segments.Proofs.Fidelity
import Segments.Proofs.Locking

/-!
# Verification and opening

Verifying the files of a store reads the journal to its end, replays copies of both files and reads
the index of stored attributes once more. It has no problem to report exactly if a store opens over
the files; what both of them say about the journal is then the same.
-/

namespace Segments

/-- A scan ends within the bytes. -/
theorem Scan.position_fromOffset_le (offset : Nat) (bytes : Bytes) :
    (fromOffset offset bytes).position ≤ offset + bytes.length := by
  induction offset, bytes using fromOffset.induct with
  | case1 offset bytes hread =>
    rw [fromOffset_of_read_torn hread]
    exact Nat.le_add_right offset bytes.length
  | case2 offset bytes e hread =>
    rw [fromOffset_of_read_fault hread]
    exact Nat.le_add_right offset bytes.length
  | case3 offset bytes r size hread ih =>
    have hsize := (Frame.size_of_read hread).2
    rw [fromOffset_of_read_record hread]
    change (fromOffset (offset + size) (bytes.drop size)).position ≤ _
    rw [List.length_drop] at ih
    omega

/-! ## When a store opens -/

/-- Replay of a scan succeeds exactly if the scan went to the end and no record contradicts those
before. -/
theorem Replayed.ofScan_eq_ok_iff {scan : Scan} {r : Replayed} :
    (ofScan scan).2 = .ok r ↔ scan.stop = none ∧ (start.steps scan.records).2 = .ok r := by
  unfold ofScan
  split
  · next heq => simp [heq]
  · next heq =>
    cases hstop : scan.stop with
    | some e => simp
    | none => simp [heq]

namespace Contents

variable {journal attributes : Bytes}

/-- A store opens over a journal that is read to its end and replayed, and an index of stored
attributes that is read. -/
theorem exists_openStore_eq {l : IndexLog} {events : List Event}
    (hopened : IndexLog.openLog attributes = .ok (l, events))
    (hstop : (Scan.ofJournal journal).stop = none) {r : Replayed}
    (hsteps : (Replayed.start.steps (Scan.ofJournal journal).records).2 = .ok r) (config : Config)
    (clock : AttributeValue) :
    ∃ store reports n, openStore ⟨journal, .log attributes⟩ config clock =
      (⟨journal.take (Scan.ofJournal journal).position, store.contents⟩,
        reports ++ [Engine.openedEvent (Scan.ofJournal journal).records.length r.names.size
          (journal.length - (Scan.ofJournal journal).position) n],
        .ok (Engine.ofReplayed config (journal.take (Scan.ofJournal journal).position) store clock
          r)) := by
  obtain ⟨store, repairs, n, hrec⟩ := AttributeStore.exists_reconcile (s := .ofLog l) rfl r
  have hscan : Scan.ofJournal journal =
      ⟨(Scan.ofJournal journal).records, (Scan.ofJournal journal).position, none⟩ := by
    rw [← hstop]
  have hleft : (AttributeContents.log attributes).openStore = .ok (.ofLog l, events) := by
    simp only [AttributeContents.openStore, hopened]
  exact ⟨store, _, n, openStore_eq_of_steps hscan hsteps hleft hrec config clock⟩

/-- Whether a store opens over some files depends on nothing else: the index of stored attributes
has to be readable, the journal has to be readable to its end, and its records must not contradict
each other. -/
theorem openStore_eq_ok_iff (config : Config) (clock : AttributeValue) :
    (∃ s, (openStore ⟨journal, .log attributes⟩ config clock).2.2 = .ok s) ↔
      (∃ l events, IndexLog.openLog attributes = .ok (l, events)) ∧
        (Scan.ofJournal journal).stop = none ∧
        ∃ r, (Replayed.start.steps (Scan.ofJournal journal).records).2 = .ok r := by
  constructor
  · rintro ⟨s, hs⟩
    simp only [openStore, AttributeContents.openStore] at hs
    split at hs
    · cases hs
    next heq =>
    split at heq
    · cases heq
    next l events hopened =>
    refine ⟨⟨l, events, hopened⟩, ?_⟩
    simp only [Engine.openStore] at hs
    split at hs
    · cases hs
    next reports r hscan =>
    obtain ⟨hstop, hsteps⟩ := Replayed.ofScan_eq_ok_iff.mp (congrArg Prod.snd hscan)
    exact ⟨hstop, r, hsteps⟩
  · rintro ⟨⟨l, events, hopened⟩, hstop, r, hsteps⟩
    obtain ⟨store, reports, n, hopening⟩ := exists_openStore_eq hopened hstop hsteps config clock
    rw [hopening]
    exact ⟨_, rfl⟩

end Contents

namespace Engine

variable {s : Engine}

/-- Offering values to a store that takes writes leaves one, and the journal as it was. -/
theorem writeAllThrough_keeps (hr : s.store.refusing = false) (ids : List SegmentId) :
    (s.writeAllThrough ids).1.store.refusing = false ∧ (s.writeAllThrough ids).1.log = s.log := by
  induction ids generalizing s with
  | nil => exact ⟨hr, rfl⟩
  | cons id ids ih =>
    obtain ⟨hr', hlog⟩ := ih (writeThrough_of_taking hr id).1
    refine ⟨hr', hlog.trans ?_⟩
    unfold Engine.writeThrough
    cases s.entries.get? id <;> rfl

/-- A store whose devices do not fail is shut down. -/
theorem shutdown_of_taking (hflush : s.log.device.switch.failFlush = false)
    (hr : s.store.refusing = false) : s.shutdown.2.2 = .ok () := by
  unfold Engine.shutdown
  cases hc : s.closed with
  | true => rfl
  | false =>
    obtain ⟨hr', hlog⟩ := writeAllThrough_keeps (s := { s with closed := true }) hr
      (s.liveEntries.map Entry.id)
    simp only [hlog, OperationLog.flush_eq_self hflush, AttributeStore.flush, hr',
      Bool.false_eq_true, if_false]

end Engine

/-- Bringing a store in line does not make it refuse writes. -/
theorem AttributeStore.refusing_reconcile {s : AttributeStore} (h : s.refusing = false)
    (r : Replayed) : (s.reconcile r).1.refusing = false := by
  refine reconcile_keeps (P := fun s => s.refusing = false) (fun s hs id _ => ?_)
    (fun s hs id _ => ?_) h
  · obtain ⟨s', hremoved, hs', -⟩ := removeSegment_of_taking hs id
    rw [hremoved]
    exact hs'
  · obtain ⟨s', hput, hs', -⟩ := put_of_taking hs id (r.nodup_stale s id)
    rw [hput]
    exact hs'

/-- A store that opens can be shut down. -/
theorem Contents.shutdown_of_openStore {c : Contents} {config : Config} {clock : AttributeValue}
    {s : Engine} (hs : (c.openStore config clock).2.2 = .ok s) : s.shutdown.2.2 = .ok () := by
  simp only [openStore] at hs
  split at hs
  · cases hs
  next store events hopened =>
  obtain ⟨r, -, rfl⟩ := Engine.eq_ofReplayed_of_openStore hs
  exact Engine.shutdown_of_taking rfl (AttributeStore.refusing_reconcile
    (AttributeContents.refusing_of_openStore hopened) r)

/-! ## What a verification finds -/

namespace Findings

variable {s : Snapshot}

/-- Replaying the copies has no problem exactly if a store opens over them. -/
theorem replayProblems_eq_nil_iff :
    replayProblems s = [] ↔ ∃ e, (s.contents.openStore Snapshot.config 0).2.2 = .ok e := by
  unfold replayProblems Snapshot.openStore
  cases hs : (s.contents.openStore Snapshot.config 0).2.2 with
  | error e => simp [Except.map]
  | ok e =>
    have hshut : (Scheduler.ofEngine e).shutdown.2 = .ok () := Contents.shutdown_of_openStore hs
    simp [Except.map, hshut]

/-- The journal has no problem exactly if it is read to its end and replayed. -/
theorem problems_ofJournal_eq_nil_iff : (ofJournal s).problems = [] ↔
    s.scan.stop = none ∧ ∃ e, (s.contents.openStore Snapshot.config 0).2.2 = .ok e := by
  rw [← replayProblems_eq_nil_iff]
  unfold ofJournal
  dsimp only
  split
  · next hstop => simp [hstop]
  · next hstop => simp [hstop]

/-- A log has no problems exactly if it can be opened. -/
theorem problems_ofIndex_eq_nil_iff : (ofIndex s).problems = [] ↔
    ∃ l events, IndexLog.openLog s.attributes = .ok (l, events) := by
  unfold ofIndex Snapshot.openIndex
  cases IndexLog.openLog s.attributes with
  | error e => simp [Except.map]
  | ok p => simpa [Except.map] using ⟨p.1, p.2, rfl⟩

end Findings

/-- Both files have no problem exactly if a store opens over them. -/
theorem Verification.problems_ofSnapshot_eq_zero_iff (s : Snapshot) (config : Config)
    (clock : AttributeValue) : (ofSnapshot s .all).problems = 0 ↔
      ∃ e, (s.contents.openStore config clock).2.2 = .ok e := by
  have hproblems : (ofSnapshot s .all).problems =
      ((Findings.ofJournal s).problems ++ (Findings.ofIndex s).problems).length := by
    simp [ofSnapshot, VerifyScope.all]
  rw [hproblems, List.length_eq_zero_iff, List.append_eq_nil_iff,
    Findings.problems_ofJournal_eq_nil_iff, Findings.problems_ofIndex_eq_nil_iff,
    Snapshot.contents, Contents.openStore_eq_ok_iff, Contents.openStore_eq_ok_iff]
  constructor
  · rintro ⟨⟨-, hopens⟩, -⟩
    exact hopens
  · exact fun hopens => ⟨⟨hopens.2.1, hopens⟩, hopens.1⟩

/-! ## The files of a directory -/

namespace FileTree

variable {t : FileTree} {path : String} {place : FilePlace}

/-- There is a directory with the two files of a store, and nobody works with it. -/
structure HasStore (t : FileTree) (path : String) (place : FilePlace) (journal attributes : Bytes) :
    Prop where
  /-- There is the directory. -/
  directory : t.findDirectory? path = some place
  /-- It has a journal. -/
  journal : t.node? (place ++ [StoreDirectory.journalName]) = some (.file journal)
  /-- It has an index of stored attributes. -/
  attributes : t.node? (place ++ [StoreDirectory.attributesName]) = some (.file attributes)
  /-- The lock file is a file, if it is there. -/
  lock : t.isDirectory (place ++ [StoreDirectory.lockName]) = false
  /-- It is not locked. -/
  free : place ++ [StoreDirectory.lockName] ∉ t.locks

variable {journal attributes : Bytes}

/-- Whoever asks for the directory gets it, and finds and copies the files as they are. -/
theorem HasStore.exists_acquire (h : t.HasStore path place journal attributes) (create : Bool) :
    ∃ t', t.acquire path create = (t', .ok ⟨path, place⟩) ∧
      t'.bytesAt (place ++ [StoreDirectory.journalName]) = journal ∧
      t'.bytesAt (place ++ [StoreDirectory.attributesName]) = attributes ∧
      Snapshot.copy t' ⟨path, place⟩ = .ok ⟨path, journal, attributes⟩ := by
  rcases lockDirectory_cases h.directory with ⟨hdirectory | hheld, -⟩ | ⟨-, hlocked⟩
  · rw [h.lock] at hdirectory
    cases hdirectory
  · exact absurd hheld h.free
  let t' : FileTree := { t.withEmpty (t.missingLock? path) with
    locks := (place ++ [StoreDirectory.lockName]) :: t.locks }
  have hacquired : t.acquire path create = (t', .ok ⟨path, place⟩) :=
    (acquire_of_directory h.directory create).trans hlocked
  have hnodes : ∀ name, name ≠ StoreDirectory.lockName →
      t'.node? (place ++ [name]) = t.node? (place ++ [name]) := by
    intro name hname
    change (t.withEmpty (t.missingLock? path)).node? _ = _
    rw [node?_withEmpty missingLock?_ne_root, if_neg]
    intro hmade
    obtain ⟨place', hdirectory, -, heq⟩ := missingLock?_eq_some_iff.mp hmade
    obtain rfl := Option.some.inj (h.directory.symm.trans hdirectory)
    exact hname (List.singleton_inj.mp (List.append_cancel_left heq))
  have hjournal := (hnodes StoreDirectory.journalName (by decide)).trans h.journal
  have hattributes := (hnodes StoreDirectory.attributesName (by decide)).trans h.attributes
  refine ⟨t', hacquired, ?_, ?_, ?_⟩
  · simp only [bytesAt, hjournal]
  · simp only [bytesAt, hattributes]
  · simp only [Snapshot.copy, isNew, exists?, readFile, StoreDirectory.journalPlace,
      StoreDirectory.attributesPlace, hjournal, hattributes, Option.isSome_some, Bool.not_true,
      Bool.false_eq_true, if_false]

/-- The commands get copies of the files. -/
theorem HasStore.exists_load (h : t.HasStore path place journal attributes) :
    ∃ t', Snapshot.load t path = (t', .ok ⟨path, journal, attributes⟩) := by
  obtain ⟨t', hacquired, -, -, hcopied⟩ := h.exists_acquire false
  refine ⟨t'.release ⟨path, place⟩, ?_⟩
  simp only [Snapshot.load, h.directory, Option.isNone_some, Bool.false_eq_true, if_false, hacquired,
    hcopied]

end FileTree

/-- The warning that a torn tail begins at an offset of the journal. -/
def Findings.tornWarning (torn offset : Nat) : String :=
  s!"{torn} trailing byte(s) at offset {offset} belong to an incomplete record"

/-- What a verification finds in the journal of a store that opens: as many records as are replayed,
and a warning if the journal is cut, with the number of bytes that are cut off. -/
theorem Findings.ofJournal_of_openStore {s : Snapshot} {config : Config} {clock : AttributeValue}
    {e : Engine} (he : (s.contents.openStore config clock).2.2 = .ok e) :
    ∃ kept reports records repaired, (s.contents.openStore config clock).1.journal = kept ∧
      kept <+: s.journal ∧
      (s.contents.openStore config clock).2.1 = reports ++
        [Engine.openedEvent records e.names.size (s.journal.length - kept.length) repaired] ∧
      ofJournal s = ⟨records, [], if kept = s.journal then [] else
        [tornWarning (s.journal.length - kept.length) kept.length]⟩ := by
  obtain ⟨⟨l, events, hopened⟩, hstop, r, hsteps⟩ :=
    (Contents.openStore_eq_ok_iff config clock).mp ⟨e, he⟩
  obtain ⟨store, reports, n, hopening⟩ :=
    Contents.exists_openStore_eq hopened hstop hsteps config clock
  have hproblems := replayProblems_eq_nil_iff.mpr
    ((Contents.openStore_eq_ok_iff Snapshot.config 0).mpr ⟨⟨l, events, hopened⟩, hstop, r, hsteps⟩)
  have hle : (Scan.ofJournal s.journal).position ≤ s.journal.length := by
    have hbound := Scan.position_fromOffset_le 0 s.journal
    rwa [Nat.zero_add] at hbound
  have hkept : (s.journal.take (Scan.ofJournal s.journal).position).length =
      (Scan.ofJournal s.journal).position := List.length_take_of_le hle
  rw [Snapshot.contents] at he ⊢
  rw [hopening] at he ⊢
  obtain rfl := Except.ok.inj he
  refine ⟨_, reports, _, n, rfl, List.take_prefix _ _, by rw [hkept]; rfl, ?_⟩
  unfold ofJournal Snapshot.scan
  simp only [hstop, hproblems, hkept]
  congr 1
  by_cases hcut : (Scan.ofJournal s.journal).position = s.journal.length
  · have hall : s.journal.take (Scan.ofJournal s.journal).position = s.journal := by
      rw [hcut, List.take_length]
    rw [if_pos hall, hcut, Nat.sub_self]
    rfl
  · have hshort : s.journal.take (Scan.ofJournal s.journal).position ≠ s.journal :=
      fun hall => hcut (hkept.symm.trans (congrArg List.length hall))
    rw [if_neg hshort, if_pos (Nat.sub_pos_of_lt (Nat.lt_of_le_of_ne hle hcut))]
    rfl

/-- Verifying both files of a store directory finds no problem exactly if a store opens over them:
that takes the lock of the same directory and finds the same files. Then as many records of the
journal are reported as are replayed, and there is a warning about the journal exactly if a torn tail
is cut off, with the number of its bytes. -/
theorem Command.verify_agrees {t : FileTree} {path : String} {place : FilePlace}
    {journal attributes : Bytes} (h : t.HasStore path place journal attributes) (config : Config)
    (clock : AttributeValue) :
    let verified := (run t (some path) (.verify .all)).2
    let opening := Contents.openStore ⟨journal, .log attributes⟩ config clock
    (∃ t', t.acquire path true = (t', .ok ⟨path, place⟩) ∧
      t'.bytesAt (StoreDirectory.journalPlace ⟨path, place⟩) = journal ∧
      t'.bytesAt (StoreDirectory.attributesPlace ⟨path, place⟩) = attributes) ∧
    (verified.failure = none ↔ ∃ s, opening.2.2 = .ok s) ∧
    ∀ s, opening.2.2 = .ok s → ∃ kept reports records repaired,
      opening.1.journal = kept ∧ kept <+: journal ∧
      opening.2.1 = reports ++
        [Engine.openedEvent records s.names.size (journal.length - kept.length) repaired] ∧
      verified.output = Text.unlines (["Verifying segment store at " ++ path, "",
          "Checking journal...", s!"  ✓ Journal: {records} record(s) checked"] ++
        (if kept = journal then [] else ["    warning: " ++
          Findings.tornWarning (journal.length - kept.length) kept.length]) ++
        "Checking attribute index..." ::
          ((Findings.ofIndex ⟨path, journal, attributes⟩).lines "Attribute index" ++
            ["", "✓ Store verification passed"])) := by
  obtain ⟨t', hloaded⟩ := h.exists_load
  obtain ⟨t'', hacquired, hjournal, hattributes, -⟩ := h.exists_acquire true
  have hrun : (run t (some path) (.verify .all)).2 =
      Snapshot.verify .all ⟨path, journal, attributes⟩ := by
    simp only [run, onStore, Snapshot.withSnapshot, hloaded]
  refine ⟨⟨t'', hacquired, hjournal, hattributes⟩, ?_, fun s hs => ?_⟩
  · have hzero :=
      Verification.problems_ofSnapshot_eq_zero_iff ⟨path, journal, attributes⟩ config clock
    rw [hrun]
    refine Iff.trans ?_ hzero
    simp only [Snapshot.verify]
    split
    · next hnone => simp [hnone]
    · next hsome => simp [hsome]
  · obtain ⟨kept, reports, records, repaired, hkept, hprefix, hreports, hfound⟩ :=
      Findings.ofJournal_of_openStore (s := ⟨path, journal, attributes⟩) hs
    refine ⟨kept, reports, records, repaired, hkept, hprefix, hreports, ?_⟩
    have hindex : (Findings.ofIndex ⟨path, journal, attributes⟩).problems = [] :=
      Findings.problems_ofIndex_eq_nil_iff.mpr
        ((Contents.openStore_eq_ok_iff config clock).mp ⟨s, hs⟩).1
    rw [hrun]
    simp only [Snapshot.verify, Verification.ofSnapshot, VerifyScope.all, if_true, hfound,
      Option.toList_some, List.singleton_append, List.flatMap_cons, List.flatMap_nil, hindex,
      List.append_nil, List.isEmpty_nil]
    congr 1
    by_cases hcut : kept = journal
    · simp only [if_pos hcut]
      rfl
    · simp only [if_neg hcut]
      rfl

/-- A name leads to a place beside the root. -/
theorem TreePath.ofText?_name : ofText? "s" = .ok ⟨["s"], .name⟩ := by
  have hsplit : "s".splitOn "/" = ["s"] := by
    rw [String.splitOn, if_neg (by decide), String.splitOnAux, if_neg (by decide),
      if_neg (by decide), String.splitOnAux, if_pos (by decide)]
    decide
  have hzero : "s".contains (Char.ofNat 0) = false := by
    rw [String.contains_char_eq]
    decide
  rw [ofText?, hzero, if_neg Bool.false_ne_true, if_neg (by decide), if_neg (by decide)]
  simp only [hsplit]
  rfl

/-- A directory with the two files of a store and nothing else. -/
def FileTree.holding (journal attributes : Bytes) : FileTree :=
  ((FileTree.empty.put ["s"] .directory).put ["s", StoreDirectory.journalName]
    (.file journal)).put ["s", StoreDirectory.attributesName] (.file attributes)

theorem FileTree.hasStore_holding (journal attributes : Bytes) :
    (holding journal attributes).HasStore "s" ["s"] journal attributes := by
  refine ⟨?_, rfl, rfl, rfl, List.not_mem_nil⟩
  simp only [findDirectory?, find?, TreePath.ofText?_name]
  rfl

/-- A directory in which the journal has a frame and a byte more. -/
def FileTree.tornStore : FileTree :=
  ((FileTree.empty.put ["s"] .directory).put ["s", StoreDirectory.journalName]
    (.file (Frame.wholes [.create 1 "a" []] ++ [0x53]))).put
      ["s", StoreDirectory.attributesName] (.file [])

/-- A store whose journal has a torn end is verified and can be opened. -/
theorem Command.verify_agrees_of_tornStore :
    FileTree.tornStore.HasStore "s" ["s"] (Frame.wholes [.create 1 "a" []] ++ [0x53]) [] ∧
      (run FileTree.tornStore (some "s") (.verify .all)).2.failure = none ∧
      ∃ s, (Contents.openStore ⟨Frame.wholes [.create 1 "a" []] ++ [0x53], .log []⟩ .standard
        0).2.2 = .ok s := by
  have hstore : FileTree.tornStore.HasStore "s" ["s"]
      (Frame.wholes [.create 1 "a" []] ++ [0x53]) [] := FileTree.hasStore_holding _ _
  have hframable : ∀ r ∈ [Record.create 1 "a" []], r.Framable := by
    simp only [List.forall_mem_singleton]
    exact ⟨by decide, by decide⟩
  have htorn : Frame.Torn [0x53] :=
    ⟨.create 1 "a" [], hframable _ List.mem_cons_self, by decide, by decide⟩
  have hscan := Scan.ofJournal_wholes hframable htorn
  have hopens : ∃ s, (Contents.openStore ⟨Frame.wholes [.create 1 "a" []] ++ [0x53], .log []⟩
      .standard 0).2.2 = .ok s := by
    refine (Contents.openStore_eq_ok_iff .standard 0).mpr ⟨?_, by rw [hscan], ?_⟩
    · obtain ⟨events, hopened, -⟩ := IndexLog.logs_empty.openLog
      exact ⟨_, events, hopened⟩
    · rw [hscan]
      exact ⟨_, rfl⟩
  obtain ⟨-, hiff, -⟩ := verify_agrees hstore .standard 0
  exact ⟨hstore, hiff.mpr hopens, hopens⟩

end Segments
