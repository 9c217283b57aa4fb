import Segments.Proofs.Log
import Segments.Proofs.Stream

/-!
# Records come back from a journal

Records are appended to an empty journal one after another. Each append tells the offset at which
the frame of its record starts, the frames stand one after another, and a scan of the journal
through its buffer gives the same records at the same offsets.
-/

namespace Segments

namespace Frame

/-- Where each of several frames starts that stand one after another from an offset on. -/
def starts : Nat → List Bytes → List Nat
  | _, [] => []
  | offset, frame :: frames => offset :: starts (offset + frame.length) frames

theorem zip_starts_whole (offset : Nat) (rs : List Record) :
    (starts offset (rs.map whole)).zip rs = Scan.placed offset rs := by
  induction rs generalizing offset with
  | nil => rfl
  | cons r rs ih =>
    rw [Scan.placed, ← ih]
    rfl

/-- Exactly the lists of records that can be written have frames. -/
theorem mapM_encode_eq_ok_iff {rs : List Record} {frames : List Bytes} :
    rs.mapM encode = .ok frames ↔ (∀ r ∈ rs, r.Framable) ∧ frames = rs.map whole := by
  induction rs generalizing frames with
  | nil =>
    rw [List.mapM_nil]
    exact ⟨fun h => ⟨nofun, (Except.ok.inj h).symm⟩, fun h => congrArg Except.ok h.2.symm⟩
  | cons r rs ih =>
    rw [List.mapM_cons]
    cases hr : encode r with
    | error e =>
      have hnot : ¬r.Framable := fun h => by
        rw [encode_eq_ok_iff.mpr ⟨h, rfl⟩] at hr
        cases hr
      exact ⟨nofun, fun h => absurd (h.1 r List.mem_cons_self) hnot⟩
    | ok frame =>
      obtain ⟨hframable, rfl⟩ := encode_eq_ok_iff.mp hr
      cases hrs : rs.mapM encode with
      | error e =>
        refine ⟨nofun, fun h => ?_⟩
        rw [ih.mpr ⟨fun r' h' => h.1 r' (List.mem_cons_of_mem _ h'), rfl⟩] at hrs
        cases hrs
      | ok later =>
        obtain ⟨hlater, rfl⟩ := ih.mp hrs
        refine ⟨fun h => ⟨?_, (Except.ok.inj h).symm⟩, fun h => congrArg Except.ok h.2.symm⟩
        exact List.forall_mem_cons.mpr ⟨hframable, hlater⟩

end Frame

namespace OperationLog

/-- Appends records one after another, and tells the offset of each unless one fails. -/
def appendAll (log : OperationLog) : List Record → OperationLog × Except SegmentError (List Nat)
  | [] => (log, .ok [])
  | r :: rs =>
    match log.append r with
    | (log, .error e) => (log, .error e)
    | (log, .ok offset) =>
      let (log, offsets) := log.appendAll rs
      (log, offsets.map (offset :: ·))

/-- A safe journal takes all records that can be written. -/
theorem Safe.appendAll {log : OperationLog} (h : log.Safe) {rs : List Record}
    (hrs : ∀ r ∈ rs, r.Framable) :
    ∃ log', log.appendAll rs = (log', .ok (Frame.starts log.size (rs.map Frame.whole))) ∧
      log'.bytes = log.bytes ++ Frame.wholes rs := by
  induction rs generalizing log with
  | nil => exact ⟨log, rfl, (List.append_nil _).symm⟩
  | cons r rs ih =>
    obtain ⟨log₁, hlog₁, hsafe, hbytes₁⟩ := h.append_whole (hrs r List.mem_cons_self)
    obtain ⟨log₂, hlog₂, hbytes₂⟩ := ih hsafe fun r' h => hrs r' (List.mem_cons_of_mem _ h)
    have hsize : log₁.size = log.size + (Frame.whole r).length := by
      rw [size, hbytes₁, List.length_append, size]
    refine ⟨log₂, ?_, ?_⟩
    · rw [OperationLog.appendAll, hlog₁]
      simp only [hlog₂, hsize]
      rfl
    · rw [hbytes₂, hbytes₁, List.append_assoc]
      rfl

/-- Records appended to an empty journal are scanned back in order, each at the offset that its
append told, which is where its frame starts. -/
theorem scan_appendAll {rs : List Record} (hrs : ∀ r ∈ rs, r.Framable) (syncOnCommit : Bool) :
    ∃ log frames, rs.mapM Frame.encode = .ok frames ∧
      (ofBytes [] syncOnCommit).appendAll rs = (log, .ok (Frame.starts 0 frames)) ∧
      log.bytes = frames.flatten ∧ log.scan = ⟨(Frame.starts 0 frames).zip rs, log.size, none⟩ ∧
      ∀ {σ : Type} [ByteStore σ] (source : σ), ByteStore.Reads source log.bytes →
        ∃ s, RecordStream.scan source = (s, log.scan) ∧ s.position = log.size ∧
          s.next = (s, none) := by
  have hsafe : (ofBytes [] syncOnCommit).Safe := ⟨rfl, rfl, rfl⟩
  obtain ⟨log, hlog, hbytes⟩ := hsafe.appendAll hrs
  have hwholes : log.bytes = Frame.wholes rs := hbytes
  have hscan : log.scan =
      ⟨(Frame.starts 0 (rs.map Frame.whole)).zip rs, log.size, none⟩ := by
    have hjournal := Scan.ofJournal_wholes hrs Frame.torn_nil
    rw [List.append_nil] at hjournal
    rw [scan, size, hwholes, Frame.zip_starts_whole, hjournal]
  refine ⟨log, rs.map Frame.whole, Frame.mapM_encode_eq_ok_iff.mpr ⟨hrs, rfl⟩, hlog, hwholes,
    hscan, ?_⟩
  intro σ _ source hreads
  obtain ⟨s, hs, hend⟩ := RecordStream.scan_of_reads hreads
  refine ⟨s, hs, ?_, hend.next⟩
  rw [hend.position]
  exact congrArg Scan.position hscan

theorem scan_appendAll_pair :
    ∃ rs : List Record, rs.length = 2 ∧ (∀ r ∈ rs, r.Framable) ∧
      ∃ log frames, rs.mapM Frame.encode = .ok frames ∧
        (ofBytes [] true).appendAll rs = (log, .ok (Frame.starts 0 frames)) ∧
        log.bytes = frames.flatten ∧ log.scan = ⟨(Frame.starts 0 frames).zip rs, log.size, none⟩ ∧
        ∃ s, RecordStream.scan log.device = (s, log.scan) ∧ s.position = log.size ∧
          s.next = (s, none) := by
  have hrs : ∀ r ∈ [Record.create 1 "a" [], Record.append 1 0 [0xAA] []], r.Framable := by
    intro r hr
    simp only [List.mem_cons, List.not_mem_nil, or_false] at hr
    rcases hr with rfl | rfl
    · exact ⟨by decide, by decide⟩
    · exact ⟨by decide, by decide⟩
  obtain ⟨log, frames, hframes, hlog, hbytes, hscan, hstream⟩ := scan_appendAll hrs true
  exact ⟨_, rfl, hrs, log, frames, hframes, hlog, hbytes, hscan,
    hstream log.device (Crashable.reads (Memory.reads log.bytes) _)⟩

end OperationLog

end Segments
