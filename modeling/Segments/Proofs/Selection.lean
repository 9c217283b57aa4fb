import Segments.Console.Program
import Segments.Proofs.Stream

/-!
# What a dump selects

A dump goes through a stream of records once. It skips those before an offset, keeps those that
follow until there are enough, and ends early: at the limit, at an error, or where the journal
ends. It comes to the same as reading the whole journal first and choosing from what was found.
-/

namespace Segments

/-- The entry of a record is at the offset of the record. -/
@[simp] theorem DumpEntry.offset_ofRecord (offset : Nat) (r : Record) :
    (ofRecord offset r).offset = offset := by
  cases r <;> rfl

namespace Scan

/-- The entries of a scan from an offset on. -/
def entriesFrom (start : Nat) (s : Scan) : List DumpEntry :=
  (s.records.filter fun entry => decide (start ≤ entry.1)).map
    fun entry => .ofRecord entry.1 entry.2

variable {start : Nat} {s : Scan} {offset : Nat} {r : Record}

@[simp] theorem entriesFrom_nil {position : Nat} {stop : Option SegmentError} :
    entriesFrom start ⟨[], position, stop⟩ = [] := rfl

theorem stop_cons (entry : Nat × Record) (s : Scan) : (s.cons entry).stop = s.stop := rfl

/-- A record before the offset is skipped. -/
theorem entriesFrom_cons_of_lt (h : offset < start) :
    (s.cons (offset, r)).entriesFrom start = s.entriesFrom start := by
  have hout : decide (start ≤ offset) = false := decide_eq_false (Nat.not_le.mpr h)
  simp only [entriesFrom, cons, List.filter_cons, hout, Bool.false_eq_true, if_false]

/-- A record at the offset or behind it is an entry. -/
theorem entriesFrom_cons_of_le (h : start ≤ offset) :
    (s.cons (offset, r)).entriesFrom start = .ofRecord offset r :: s.entriesFrom start := by
  have hin : decide (start ≤ offset) = true := decide_eq_true h
  simp only [entriesFrom, cons, List.filter_cons, hin, if_true, List.map_cons]

/-- No record is before the beginning. -/
theorem entriesFrom_zero (s : Scan) :
    s.entriesFrom 0 = s.records.map fun entry => .ofRecord entry.1 entry.2 := by
  have hall : s.records.filter (fun entry => decide (0 ≤ entry.1)) = s.records :=
    List.filter_eq_self.mpr fun entry _ => decide_eq_true (Nat.zero_le _)
  rw [entriesFrom, hall]

/-- The entries from an offset on are those of all entries that are not before it. -/
theorem filter_entriesFrom (start : Nat) (s : Scan) :
    (s.entriesFrom 0).filter (fun e => decide (start ≤ e.offset)) = s.entriesFrom start := by
  rw [entriesFrom_zero, List.filter_map, entriesFrom]
  congr 1
  refine List.filter_congr fun entry _ => ?_
  simp only [Function.comp_apply, DumpEntry.offset_ofRecord]

end Scan

namespace JournalDump

/-- The first entries up to a limit, with the error behind them if there are not enough. -/
def bounded (limit : Option Nat) (entries : List DumpEntry) (stop : Option SegmentError) :
    JournalDump :=
  match limit with
  | none => ⟨entries, stop⟩
  | some n => ⟨entries.take n, if entries.length < n then stop else none⟩

variable {limit : Option Nat} {entries : List DumpEntry} {stop : Option SegmentError}

/-- With room for one more, all entries are there, and the error. -/
theorem bounded_of_lt (h : ∀ n ∈ limit, entries.length < n) :
    bounded limit entries stop = ⟨entries, stop⟩ := by
  cases limit with
  | none => rfl
  | some n =>
    have hlen : entries.length < n := h n rfl
    rw [bounded, if_pos hlen, List.take_of_length_le (Nat.le_of_lt hlen)]

/-- Without an error, room for one more is not needed. -/
theorem bounded_none_of_le (h : ∀ n ∈ limit, entries.length ≤ n) :
    bounded limit entries none = ⟨entries, none⟩ := by
  cases limit with
  | none => rfl
  | some n => rw [bounded, List.take_of_length_le (h n rfl), ite_self]

/-- Once there are enough entries, neither others nor an error come behind them. -/
theorem bounded_append (more : List DumpEntry) :
    bounded (some entries.length) (entries ++ more) stop = ⟨entries, none⟩ := by
  have hfull : ¬(entries ++ more).length < entries.length := by
    rw [List.length_append]
    omega
  rw [bounded, List.take_left, if_neg hfull]

/-- There are enough entries at a limit that is not above their number. -/
theorem enough_iff : enough limit entries = true ↔ ∃ n, limit = some n ∧ n ≤ entries.length := by
  cases limit <;> simp [enough]

/-- An error is there if it ended the scan, and there were not enough entries before it. -/
theorem stop_bounded_eq_some_iff {e : SegmentError} :
    (bounded limit entries stop).stop = some e ↔
      stop = some e ∧ ∀ n ∈ limit, entries.length < n := by
  cases limit with
  | none => simp [bounded]
  | some n =>
    by_cases hlen : entries.length < n
    · simp [bounded, hlen]
    · simp [bounded, hlen]

variable {σ : Type} [ByteStore σ]

/-- Selecting while the stream is read is choosing from all that is found. -/
theorem select_eq (start : Nat) {fuel : Nat} {s : RecordStream σ}
    (h : ∀ n ∈ limit, entries.length ≤ n) :
    select limit start fuel s entries =
      bounded limit (entries ++ (RecordStream.drain fuel s).2.entriesFrom start)
        (RecordStream.drain fuel s).2.stop := by
  induction fuel generalizing s entries with
  | zero =>
    rw [select, RecordStream.drain, Scan.entriesFrom_nil, List.append_nil, bounded_none_of_le h]
  | succ fuel ih =>
    rw [select, RecordStream.drain]
    rcases s.next with ⟨s', _ | item⟩
    · simp only [Scan.entriesFrom_nil, List.append_nil, bounded_none_of_le h]
    -- What was taken from the stream last is dropped when there are enough.
    by_cases hfull : enough limit entries = true
    · obtain ⟨n, rfl, hn⟩ := enough_iff.mp hfull
      obtain rfl : n = entries.length := Nat.le_antisymm hn (h n rfl)
      cases item with
      | error e => simp only [if_pos hfull, bounded_append]
      | ok entry => simp only [if_pos hfull, bounded_append]
    · have hroom : ∀ n ∈ limit, entries.length < n := fun n hn =>
        Nat.not_le.mp fun hle => hfull (enough_iff.mpr ⟨n, hn, hle⟩)
      simp only [if_neg hfull]
      cases item with
      | error e => simp only [Scan.entriesFrom_nil, List.append_nil, bounded_of_lt hroom]
      | ok entry =>
        obtain ⟨offset, r⟩ := entry
        by_cases hbefore : offset < start
        · simp only [if_pos hbefore, ih h, Scan.entriesFrom_cons_of_lt hbefore, Scan.stop_cons]
        · have hmore : ∀ n ∈ limit, (entries ++ [DumpEntry.ofRecord offset r]).length ≤ n := by
            intro n hn
            rw [List.length_append]
            exact hroom n hn
          simp only [if_neg hbefore, ih hmore, Scan.stop_cons, List.append_assoc,
            Scan.entriesFrom_cons_of_le (Nat.not_lt.mp hbefore), List.singleton_append]

/-- A dump of a store that can be read is chosen from the scan of what it holds. -/
theorem ofSource_eq {source : σ} {bytes : Bytes} (h : ByteStore.Reads source bytes)
    (limit : Option Nat) (start : Nat) : ofSource source limit start =
      bounded limit ((Scan.ofJournal bytes).entriesFrom start) (Scan.ofJournal bytes).stop := by
  obtain ⟨s, hscan, -⟩ := RecordStream.scan_of_reads h
  have hdrain : RecordStream.drain (RecordStream.stepBound (ByteStore.size source))
      (.ofSource source) = (s, Scan.ofJournal bytes) := hscan
  have hempty : ∀ n ∈ limit, ([] : List DumpEntry).length ≤ n := fun n _ => Nat.zero_le n
  rw [ofSource, select_eq start hempty, hdrain, List.nil_append]

end JournalDump

namespace Snapshot

/-- A dump is chosen from the scan of the journal. -/
theorem dumped_eq (s : Snapshot) (limit : Option Nat) (start : Nat) :
    s.dumped limit start = .bounded limit (s.scan.entriesFrom start) s.scan.stop :=
  JournalDump.ofSource_eq (Memory.reads s.journal) limit start

/-- A full dump has every record of the scan and its error. Any other dump has, of the entries of
the full dump that are not before the offset, the first so many in the same order, and each of them
as it is there; it has the error of the scan if and only if there are fewer of them than the limit.
It is written as a full dump would be that has these entries and this error. -/
theorem dump_selects (s : Snapshot) (limit : Option Nat) (start : Nat) :
    let full := s.dumped none 0
    let dump := s.dumped limit start
    let selected := full.entries.filter fun e => decide (start ≤ e.offset)
    full.entries = s.scan.records.map (fun entry => .ofRecord entry.1 entry.2) ∧
      full.stop = s.scan.stop ∧
      dump.entries = (match limit with
        | none => selected
        | some n => selected.take n) ∧
      (∀ e, dump.stop = some e ↔ s.scan.stop = some e ∧ ∀ n ∈ limit, selected.length < n) ∧
      ∀ format, s.dump limit start format = .success (dump.render format) := by
  intro full dump selected
  have hfull : full = ⟨s.scan.entriesFrom 0, s.scan.stop⟩ := s.dumped_eq none 0
  have hselected : selected = s.scan.entriesFrom start := by
    have hentries : full.entries = s.scan.entriesFrom 0 := congrArg JournalDump.entries hfull
    change full.entries.filter _ = _
    rw [hentries, Scan.filter_entriesFrom]
  have hdump : dump = .bounded limit selected s.scan.stop := hselected ▸ s.dumped_eq limit start
  refine ⟨?_, congrArg JournalDump.stop hfull, ?_, ?_, fun format => rfl⟩
  · rw [hfull]
    exact Scan.entriesFrom_zero s.scan
  · rw [hdump]
    cases limit <;> rfl
  · intro e
    rw [hdump]
    exact JournalDump.stop_bounded_eq_some_iff

end Snapshot

end Segments
