import Segments.Journal.Stream
import Segments.Proofs.Journal
import Segments.Storage.Crash
import Segments.Storage.File
import Segments.Storage.Memory

/-!
# The buffered scan

The buffer of a scan always mirrors the bytes of the journal from the current position on, as far
as it is filled. So a step finds what reading the frame at the position finds, and the whole scan
is the scan of the byte string, for every store that gives back what it holds.
-/

namespace Segments

/-- A byte store gives back each range of the bytes it holds. -/
structure ByteStore.Reads {σ : Type} [ByteStore σ] (source : σ) (bytes : Bytes) : Prop where
  /-- It holds so many bytes. -/
  size : ByteStore.size source = bytes.length
  /-- A range of them is read in full. -/
  readAt : ∀ offset len, offset + len ≤ bytes.length →
    ByteStore.readAt source offset len = .ok ((bytes.drop offset).take len)

/-- Bytes in memory are read back. -/
theorem Memory.reads (bytes : Bytes) : ByteStore.Reads (Memory.mk bytes) bytes where
  size := rfl
  readAt _ _ h := if_neg (Nat.not_lt.mpr h)

/-- A file is read back. -/
theorem FileStore.reads (content : Bytes) :
    ByteStore.Reads (FileStore.ofContent content) content where
  size := rfl
  readAt offset len h := by
    have hread : ByteStore.readAt (FileStore.ofContent content) offset len =
      (FileStore.ofContent content).readAt offset len := rfl
    have hlen : ((content.drop offset).take len).length = len := by
      rw [List.length_take, List.length_drop]
      omega
    rw [hread, FileStore.readAt, FileStore.ofContent, if_neg (Nat.not_lt.mpr h)]
    by_cases hzero : len = 0
    · rw [if_pos hzero, hzero, List.take_zero]
    · rw [if_neg hzero, Bytes.takeExactly, if_pos hlen]

/-- A device that crashes is read back as what is behind it. -/
theorem Crashable.reads {σ : Type} [ByteStore σ] {inner : σ} {bytes : Bytes}
    (h : ByteStore.Reads inner bytes) (switch : CrashSwitch) :
    ByteStore.Reads (Crashable.mk inner switch) bytes where
  size := h.size
  readAt := h.readAt

namespace RecordStream

variable {σ : Type} {s s' : RecordStream σ} {bytes : Bytes}

theorem length_overwrite {buffer new : Bytes} {index : Nat}
    (h : index + new.length ≤ buffer.length) :
    (overwrite buffer index new).length = buffer.length := by
  simp only [overwrite, List.length_append, List.length_take, List.length_drop]
  omega

/-- What was written over a buffer is in front with what stands before it. -/
theorem take_overwrite {buffer : Bytes} (new : Bytes) {index : Nat} (h : index ≤ buffer.length) :
    (overwrite buffer index new).take (index + new.length) = buffer.take index ++ new := by
  have hlen : (buffer.take index ++ new).length = index + new.length := by
    rw [List.length_append, List.length_take, Nat.min_eq_left h]
  rw [overwrite, ← hlen, List.take_left]

theorem length_window {index len : Nat} (h : index + len ≤ s.buffer.length) :
    (s.window index len).length = len := by
  rw [window, List.length_take, List.length_drop]
  omega

theorem le_length_buffer_grow (len : Nat) : len ≤ (s.grow len).buffer.length := by
  have hround := le_roundUp len
  unfold grow
  split
  · rw [List.length_append, List.length_replicate]
    omega
  · omega

variable [ByteStore σ]

/-- The buffer holds the bytes of the journal from the position on. -/
structure Mirrors (s : RecordStream σ) (bytes : Bytes) : Prop where
  /-- The store holds the journal. -/
  reads : ByteStore.Reads s.source bytes
  /-- The scan knows how long it is. -/
  total : s.total = bytes.length
  /-- The unread bytes are within the filled part. -/
  start_le : s.start ≤ s.filled
  /-- The filled part is within the buffer. -/
  filled_le : s.filled ≤ s.buffer.length
  /-- The unread bytes are within the journal. -/
  within : s.position + (s.filled - s.start) ≤ bytes.length
  /-- They are what the journal has at the position. -/
  unread : s.window s.start (s.filled - s.start) =
    (bytes.drop s.position).take (s.filled - s.start)

/-- The stream with another part of the journal in its buffer. -/
structure Reloaded (s s' : RecordStream σ) (bytes : Bytes) : Prop where
  /-- The buffer mirrors the journal. -/
  mirrors : s'.Mirrors bytes
  /-- The position is the same. -/
  position : s'.position = s.position
  /-- The scan has not ended by it. -/
  finished : s'.finished = s.finished

theorem mirrors_ofSource {source : σ} (h : ByteStore.Reads source bytes) :
    (ofSource source).Mirrors bytes where
  reads := h
  total := h.size
  start_le := Nat.le_refl 0
  filled_le := Nat.zero_le _
  within := Nat.zero_le _
  unread := rfl

namespace Mirrors

/-- So much of the journal stands ready in the buffer. -/
theorem window_eq (h : s.Mirrors bytes) {len : Nat} (hlen : len ≤ s.filled - s.start) :
    s.window s.start len = (bytes.drop s.position).take len := by
  have hread := congrArg (List.take len) h.unread
  rwa [window, List.take_take, List.take_take, Nat.min_eq_left hlen] at hread

/-- Moving the unread bytes to the front of the buffer keeps them. -/
theorem compact (h : s.Mirrors bytes) : Reloaded s s.compact bytes := by
  have hstart := h.start_le
  have hfilled := h.filled_le
  have hlen : (s.window s.start (s.filled - s.start)).length = s.filled - s.start :=
    length_window (by omega)
  have hfront : s.compact.window 0 (s.filled - s.start) =
      s.window s.start (s.filled - s.start) := by
    have htake := take_overwrite (s.window s.start (s.filled - s.start))
      (Nat.zero_le s.buffer.length)
    rwa [hlen, Nat.zero_add, List.take_zero, List.nil_append] at htake
  refine ⟨⟨h.reads, h.total, Nat.zero_le _, ?_, h.within, hfront.trans h.unread⟩, rfl, rfl⟩
  change s.filled - s.start ≤ (overwrite s.buffer 0 (s.window s.start (s.filled - s.start))).length
  rw [length_overwrite (by omega)]
  omega

/-- Growing the buffer keeps what is in it. -/
theorem grow (h : s.Mirrors bytes) (len : Nat) : Reloaded s (s.grow len) bytes := by
  have hstart := h.start_le
  have hfilled := h.filled_le
  unfold RecordStream.grow
  split
  · refine ⟨⟨h.reads, h.total, h.start_le, ?_, h.within, ?_⟩, rfl, rfl⟩
    · rw [List.length_append]
      exact Nat.le_add_right_of_le h.filled_le
    · have hin : s.filled - s.start ≤ (s.buffer.drop s.start).length := by
        rw [List.length_drop]
        omega
      rw [← h.unread]
      simp only [window]
      rw [List.drop_append_of_le_length (Nat.le_trans h.start_le h.filled_le),
        List.take_append_of_le_length hin]
  · exact ⟨h, rfl, rfl⟩

/-- Filling up the buffer succeeds, and leaves room in it only past the end of the journal. -/
theorem fill (h : s.Mirrors bytes) (hstart : s.start = 0) :
    ∃ s', s.fill = .ok s' ∧ Reloaded s s' bytes ∧
      min (bytes.length - s.position) s.buffer.length ≤ s'.filled - s'.start := by
  have hfilled := h.filled_le
  have hwithin := h.within
  have hunread := h.unread
  rw [hstart, Nat.sub_zero] at hwithin hunread
  have htotal := h.total
  unfold RecordStream.fill
  dsimp only
  generalize hwanted : min (s.total - s.position - s.filled) (s.buffer.length - s.filled) = wanted
  split
  · exact ⟨s, rfl, ⟨h, rfl, rfl⟩, by omega⟩
  · rw [h.reads.readAt _ _ (by omega)]
    let new := (bytes.drop (s.position + s.filled)).take wanted
    have hnew : new.length = wanted := by
      rw [List.length_take, List.length_drop]
      omega
    have hfront : (overwrite s.buffer s.filled new).take (s.filled + new.length) =
        (bytes.drop s.position).take (s.filled + new.length) := by
      have hold : s.buffer.take s.filled = (bytes.drop s.position).take s.filled := hunread
      rw [take_overwrite new hfilled, hold, List.take_add, List.drop_drop, hnew]
    refine ⟨_, rfl, ⟨⟨h.reads, h.total, ?_, ?_, ?_, ?_⟩, rfl, rfl⟩, ?_⟩
    · exact Nat.le_add_right_of_le h.start_le
    · change s.filled + new.length ≤ (overwrite s.buffer s.filled new).length
      rw [length_overwrite (by omega)]
      omega
    · change s.position + (s.filled + new.length - s.start) ≤ bytes.length
      omega
    · change ((overwrite s.buffer s.filled new).drop s.start).take _ = _
      rw [hstart, List.drop_zero, Nat.sub_zero]
      exact hfront
    · change _ ≤ s.filled + new.length - s.start
      omega

/-- The asked number of bytes is made ready, if the journal has so many from the position on. -/
theorem ensure (h : s.Mirrors bytes) (len : Nat) :
    ∃ s', s.ensure len = .ok (s', decide (s.position + len ≤ bytes.length)) ∧
      Reloaded s s' bytes ∧ (s.position + len ≤ bytes.length → len ≤ s'.filled - s'.start) := by
  have hwithin := h.within
  have htotal := h.total
  unfold RecordStream.ensure
  by_cases hready : len ≤ s.filled - s.start
  · have hin : s.position + len ≤ bytes.length := by omega
    exact ⟨s, by rw [if_pos hready, decide_eq_true hin], ⟨h, rfl, rfl⟩, fun _ => hready⟩
  · rw [if_neg hready]
    by_cases hend : s.total - s.position < len
    · have hout : ¬s.position + len ≤ bytes.length := by omega
      exact ⟨s, by rw [if_pos hend, decide_eq_false hout], ⟨h, rfl, rfl⟩, fun hin =>
        absurd hin hout⟩
    · have hin : s.position + len ≤ bytes.length := by omega
      have hc := h.compact
      have hg := hc.mirrors.grow len
      have hfront : (s.compact.grow len).start = 0 := by
        unfold RecordStream.grow
        split <;> rfl
      obtain ⟨s', hs', hf, hroom⟩ := hg.mirrors.fill hfront
      have hbuffer := le_length_buffer_grow (s := s.compact) len
      have hposition : (s.compact.grow len).position = s.position := hg.position.trans hc.position
      have henough : len ≤ s'.filled - s'.start := by
        rw [hposition] at hroom
        omega
      refine ⟨s', ?_, ⟨hf.mirrors, hf.position.trans hposition,
        hf.finished.trans (hg.finished.trans hc.finished)⟩, fun _ => henough⟩
      simp only [if_neg hend, hs', decide_eq_true hin, decide_eq_true henough]

/-- Going over bytes that stand ready keeps the rest of them. -/
theorem skip (h : s.Mirrors bytes) {size position : Nat} (hsize : size ≤ s.filled - s.start)
    (hposition : s.position = position) :
    Mirrors { s with start := s.start + size, position := position + size } bytes := by
  have hstart := h.start_le
  have hwithin := h.within
  have hrest : s.filled - (s.start + size) = s.filled - s.start - size := by omega
  have hunread := congrArg (List.drop size) h.unread
  rw [window, List.drop_take, List.drop_drop, List.drop_take, List.drop_drop] at hunread
  refine ⟨h.reads, h.total, ?_, h.filled_le, ?_, ?_⟩
  · change s.start + size ≤ s.filled
    omega
  · change position + size + (s.filled - (s.start + size)) ≤ bytes.length
    omega
  · change ((s.buffer.drop (s.start + size)).take _) = (bytes.drop (position + size)).take _
    rw [hrest, ← hposition]
    exact hunread

end Mirrors

/-- What a step answers to what stands at the position. -/
def answer (position : Nat) : Frame.Found → Except SegmentError (Option (Nat × Record))
  | .torn => .ok none
  | .fault e => .error e
  | .record r _ => .ok (some (position, r))

/-- How far a step goes over what stands at the position. -/
def advance : Frame.Found → Nat
  | .torn => 0
  | .fault _ => 0
  | .record _ size => size

/-- The stream after a step over so many bytes. -/
structure Stepped (s s' : RecordStream σ) (bytes : Bytes) (size : Nat) : Prop where
  /-- The buffer mirrors the journal. -/
  mirrors : s'.Mirrors bytes
  /-- The position is past the bytes. -/
  position : s'.position = s.position + size
  /-- The scan has not been marked as ended. -/
  finished : s'.finished = s.finished

theorem Reloaded.stepped (h : Reloaded s s' bytes) : Stepped s s' bytes 0 :=
  ⟨h.mirrors, h.position, h.finished⟩

/-- A step finds what reading the frame at the position finds. -/
theorem Mirrors.step (h : s.Mirrors bytes) :
    ∃ s', s.step = (s', answer s.position (Frame.read s.position (bytes.drop s.position))) ∧
      Stepped s s' bytes (advance (Frame.read s.position (bytes.drop s.position))) := by
  have htake : ∀ len, s.position + len ≤ bytes.length → Bytes.takeExactly len
      (bytes.drop s.position) = some ((bytes.drop s.position).take len,
        (bytes.drop s.position).drop len) := by
    intro len hlen
    rw [Bytes.takeExactly, if_pos]
    rw [List.length_take, List.length_drop]
    omega
  have htorn : ∀ len, ¬s.position + len ≤ bytes.length →
      Bytes.takeExactly len (bytes.drop s.position) = none := by
    intro len hlen
    rw [Bytes.takeExactly_eq_none_iff, List.length_drop]
    have := h.within
    omega
  obtain ⟨s₁, hs₁, h₁, hready₁⟩ := h.ensure Frame.headerSize
  unfold RecordStream.step Frame.read
  rw [hs₁]
  by_cases hheader : s.position + Frame.headerSize ≤ bytes.length
  · have hfront := h₁.mirrors.window_eq (hready₁ hheader)
    rw [h₁.position] at hfront
    rw [decide_eq_true hheader, htake _ hheader]
    simp only [hfront, h₁.position]
    cases ha : Frame.readHeader s.position ((bytes.drop s.position).take Frame.headerSize) with
    | error e => exact ⟨s₁, rfl, h₁.stepped⟩
    | ok a =>
      obtain ⟨s₂, hs₂, h₂, hready₂⟩ := h₁.mirrors.ensure a.frameSize
      rw [h₁.position] at hs₂ hready₂
      have hposition : s₂.position = s.position := h₂.position.trans h₁.position
      have hfinished : s₂.finished = s.finished := h₂.finished.trans h₁.finished
      simp only [hs₂]
      by_cases hframe : s.position + a.frameSize ≤ bytes.length
      · have hwhole := h₂.mirrors.window_eq (hready₂ hframe)
        rw [hposition] at hwhole
        rw [decide_eq_true hframe, htake _ hframe]
        simp only [hwhole, hposition]
        cases Frame.readWhole a ((bytes.drop s.position).take a.frameSize) with
        | error e => exact ⟨s₂, rfl, h₂.mirrors, hposition, hfinished⟩
        | ok r => exact ⟨_, rfl, h₂.mirrors.skip (hready₂ hframe) hposition, rfl, hfinished⟩
      · rw [decide_eq_false hframe, htorn _ hframe]
        exact ⟨s₂, rfl, h₂.mirrors, hposition, hfinished⟩
  · rw [decide_eq_false hheader, htorn _ hheader]
    exact ⟨s₁, rfl, h₁.stepped⟩

/-- The stream after a scan that ended with its buffer in order. -/
structure Drained (s : RecordStream σ) (bytes : Bytes) (position : Nat) : Prop where
  /-- The buffer mirrors the journal. -/
  mirrors : s.Mirrors bytes
  /-- The position is where the scan ended. -/
  position : s.position = position
  /-- There is nothing more to come. -/
  finished : s.finished = true

theorem Drained.next {position : Nat} (h : s.Drained bytes position) : s.next = (s, none) := by
  rw [RecordStream.next, if_pos h.finished]

theorem Stepped.drained {size : Nat} (h : Stepped s s' bytes size) (hsize : size = 0) :
    Drained { s' with finished := true } bytes s.position where
  mirrors := ⟨h.mirrors.reads, h.mirrors.total, h.mirrors.start_le, h.mirrors.filled_le,
    h.mirrors.within, h.mirrors.unread⟩
  position := by rw [h.position, hsize, Nat.add_zero]
  finished := rfl

/-- Enough steps find what a scan of the rest of the bytes finds. -/
theorem Mirrors.drain (h : s.Mirrors bytes) (hrunning : s.finished = false) {fuel : Nat}
    (hfuel : (bytes.length - s.position) / (Frame.headerSize + Frame.checksumSize) < fuel) :
    ∃ s', drain fuel s = (s', Scan.fromOffset s.position (bytes.drop s.position)) ∧
      s'.Drained bytes (Scan.fromOffset s.position (bytes.drop s.position)).position := by
  -- Each record has at least 15 bytes, so the bound on the rest goes down with each step.
  induction fuel generalizing s with
  | zero => exact absurd hfuel (Nat.not_lt_zero _)
  | succ fuel ih =>
    obtain ⟨s₁, hs₁, h₁⟩ := h.step
    have hnext : ¬s.finished = true := by simp [hrunning]
    rw [RecordStream.drain, RecordStream.next, if_neg hnext, hs₁]
    cases hread : Frame.read s.position (bytes.drop s.position) with
    | torn =>
      rw [hread] at h₁
      have hend := h₁.drained rfl
      rw [Scan.fromOffset_of_read_torn hread]
      exact ⟨_, congrArg (Prod.mk _) (congrArg (Scan.mk [] · none) hend.position), hend⟩
    | fault e =>
      rw [hread] at h₁
      have hend := h₁.drained rfl
      rw [Scan.fromOffset_of_read_fault hread]
      exact ⟨_, congrArg (Prod.mk _) (congrArg (Scan.mk [] · (some e)) hend.position), hend⟩
    | record r size =>
      rw [hread] at h₁
      have hsize := Frame.size_of_read hread
      rw [List.length_drop] at hsize
      have hposition : s₁.position = s.position + size := h₁.position
      have hfuel₁ : (bytes.length - s₁.position) / (Frame.headerSize + Frame.checksumSize) <
          fuel := by
        have hless : bytes.length - s₁.position + (Frame.headerSize + Frame.checksumSize) ≤
          bytes.length - s.position := by omega
        simp only [Frame.headerSize, Frame.checksumSize] at hfuel hless ⊢
        omega
      obtain ⟨s', hs', h'⟩ := ih h₁.mirrors (h₁.finished.trans hrunning) hfuel₁
      rw [Scan.fromOffset_of_read_record hread, List.drop_drop, ← hposition]
      refine ⟨s', ?_, h'⟩
      simp only [answer, hs']

/-- The scan through the buffer is the scan of the bytes, and nothing comes after its end. -/
theorem scan_of_reads {source : σ} (h : ByteStore.Reads source bytes) :
    ∃ s, scan source = (s, Scan.ofJournal bytes) ∧
      s.Drained bytes (Scan.ofJournal bytes).position := by
  have hfuel : (bytes.length - (ofSource source).position) /
      (Frame.headerSize + Frame.checksumSize) < stepBound (ByteStore.size source) := by
    rw [stepBound, h.size]
    exact Nat.lt_succ_self _
  exact (mirrors_ofSource h).drain rfl hfuel

end RecordStream

end Segments
