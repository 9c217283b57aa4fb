import Segments.Proofs.Cuts

/-!
# The buffered scan within its bounds

Each function of the stream has a guarded form here, which gives nothing where a difference would
be below zero or an index is not within what it is an index of. As long as the buffer mirrors the
journal, every guard holds and the guarded form gives what the function gives. So no number of
steps, over whatever bytes, ever leaves the buffer.
-/

namespace Segments

/-- A difference of two numbers, which must not be below zero. -/
def minus? (a b : Nat) : Option Nat := if b ≤ a then some (a - b) else none

theorem minus?_of_le {a b : Nat} (h : b ≤ a) : minus? a b = some (a - b) := if_pos h

/-- The bytes from one index up to another, which must be in order and within the bytes. -/
def Bytes.slice? (bytes : Bytes) (first last : Nat) : Option Bytes :=
  if first ≤ last ∧ last ≤ bytes.length then some ((bytes.drop first).take (last - first)) else none

theorem Bytes.slice?_of_le {bytes : Bytes} {first last : Nat} (hfirst : first ≤ last)
    (hlast : last ≤ bytes.length) :
    bytes.slice? first last = some ((bytes.drop first).take (last - first)) :=
  if_pos ⟨hfirst, hlast⟩

/-- Reads a header, each field at its place. -/
def Frame.readHeader? (offset : Nat) (front : Bytes) : Option (Except SegmentError Announced) := do
  let opening ← front.slice? 0 4
  if opening ≠ magic then
    return .error (.journalCorruption s!"invalid magic at offset {offset}")
  let found := Bytes.ofLittleEndian (← front.slice? 4 6)
  if version < found then
    return .error (.journalCorruption s!"unsupported version {found} at offset {offset}")
  let code := Bytes.ofLittleEndian (← front.slice? 6 7)
  match RecordKind.ofCode? code with
  | none => return .error (.journalCorruption s!"unknown record type {code} at offset {offset}")
  | some kind => return .ok ⟨kind, Bytes.ofLittleEndian (← front.slice? 7 11)⟩

/-- The fields of a header are all within it. -/
theorem Frame.readHeader?_eq {front : Bytes} (h : front.length = headerSize) (offset : Nat) :
    readHeader? offset front = some (readHeader offset front) := by
  have hslice : ∀ first len, first + len ≤ 11 →
      front.slice? first (first + len) = some ((front.drop first).take len) := by
    intro first len hlen
    rw [Bytes.slice?_of_le (Nat.le_add_right _ _) (by rw [h]; exact hlen), Nat.add_sub_cancel_left]
  have hopening := hslice 0 4 (by decide)
  rw [List.drop_zero] at hopening
  have hcode := hslice 6 1 (by decide)
  have hfound := hslice 4 2 (by decide)
  have hlength := hslice 7 4 (by decide)
  unfold readHeader? readHeader
  simp only [hopening, hfound, hcode, hlength, Option.bind_eq_bind, Option.bind_some]
  split
  · rfl
  · split
    · rfl
    · cases RecordKind.ofCode? (Bytes.ofLittleEndian ((front.drop 6).take 1)) <;> rfl

namespace RecordStream

/-- Writes bytes over a buffer, which must have room for them behind the index. -/
def overwrite? (buffer : Bytes) (index : Nat) (bytes : Bytes) : Option Bytes :=
  if index + bytes.length ≤ buffer.length then some (overwrite buffer index bytes) else none

theorem overwrite?_of_le {buffer bytes : Bytes} {index : Nat}
    (h : index + bytes.length ≤ buffer.length) :
    overwrite? buffer index bytes = some (overwrite buffer index bytes) := if_pos h

variable {σ : Type}

/-- Writing what stands at the front over the front changes nothing. -/
theorem overwrite_take (buffer : Bytes) (len : Nat) :
    overwrite buffer 0 (buffer.take len) = buffer := by
  rw [overwrite, List.take_zero, List.nil_append, Nat.zero_add, List.length_take]
  by_cases h : len ≤ buffer.length
  · rw [Nat.min_eq_left h, List.take_append_drop]
  · rw [Nat.min_eq_right (by omega), List.take_of_length_le (by omega), List.drop_length,
      List.append_nil]

@[simp] theorem filled_grow (s : RecordStream σ) (len : Nat) : (s.grow len).filled = s.filled := by
  unfold grow
  split <;> rfl

@[simp] theorem start_grow (s : RecordStream σ) (len : Nat) : (s.grow len).start = s.start := by
  unfold grow
  split <;> rfl

/-- Moves the unread bytes, so many, to the front; they are copied only if they are not there. -/
def compact? (s : RecordStream σ) (available : Nat) : Option (RecordStream σ) := do
  if 0 < s.start ∧ 0 < available then
    let unread ← s.buffer.slice? s.start s.filled
    let buffer ← overwrite? s.buffer 0 unread
    return { s with buffer, start := 0, filled := available }
  else
    return { s with start := 0, filled := available }

/-- Checks and decodes the frame that stands ready in the buffer. -/
def readWhole? (s : RecordStream σ) (a : Frame.Announced) :
    Option (Except SegmentError Record) := do
  let payloadStart := s.start + Frame.headerSize
  let payloadEnd := payloadStart + a.payloadLength
  let sum ← s.buffer.slice? payloadEnd (payloadEnd + Frame.checksumSize)
  let body ← s.buffer.slice? s.start payloadEnd
  let stored := UInt32.ofNat (Bytes.ofLittleEndian sum)
  let computed := Checksum.crc32 body
  if stored = computed then
    return Record.decode a.kind (← s.buffer.slice? payloadStart payloadEnd)
  else
    return .error (.checksumMismatch stored computed)

variable [ByteStore σ]

/-- Fills up the buffer, of which so many bytes are in use, with what is unread of the journal. -/
def fill? (s : RecordStream σ) (unread available : Nat) :
    Option (Except SegmentError (RecordStream σ)) := do
  let remaining ← minus? unread available
  let room ← minus? s.buffer.length s.filled
  if min remaining room = 0 then
    return .ok s
  else
    match ByteStore.readAt s.source (s.position + s.filled) (min remaining room) with
    | .error e => return .error (.storage e)
    | .ok bytes =>
      let buffer ← overwrite? s.buffer s.filled bytes
      return .ok { s with buffer, filled := s.filled + bytes.length }

/-- Makes so many unread bytes ready in the buffer; tells whether the journal has them. -/
def ensure? (s : RecordStream σ) (len : Nat) :
    Option (Except SegmentError (RecordStream σ × Bool)) := do
  let available ← minus? s.filled s.start
  if len ≤ available then
    return .ok (s, true)
  else
    let unread ← minus? s.total s.position
    if unread < len then
      return .ok (s, false)
    else
      let front ← s.compact? available
      match ← (front.grow len).fill? unread available with
      | .error e => return .error e
      | .ok s' =>
        let ready ← minus? s'.filled s'.start
        return .ok (s', decide (len ≤ ready))

/-- One step of a scan. -/
def step? (s : RecordStream σ) :
    Option (RecordStream σ × Except SegmentError (Option (Nat × Record))) := do
  match ← s.ensure? Frame.headerSize with
  | .error e => return (s, .error e)
  | .ok (s, false) => return (s, .ok none)
  | .ok (s, true) =>
    let front ← s.buffer.slice? s.start (s.start + Frame.headerSize)
    match ← Frame.readHeader? s.position front with
    | .error e => return (s, .error e)
    | .ok a =>
      match ← s.ensure? a.frameSize with
      | .error e => return (s, .error e)
      | .ok (s, false) => return (s, .ok none)
      | .ok (s, true) =>
        match ← s.readWhole? a with
        | .error e => return (s, .error e)
        | .ok r =>
          return ({ s with start := s.start + a.frameSize, position := s.position + a.frameSize },
            .ok (some (s.position, r)))

/-- The next record or error; nothing once the scan has ended. -/
def next? (s : RecordStream σ) :
    Option (RecordStream σ × Option (Except SegmentError (Nat × Record))) := do
  if s.finished then
    return (s, none)
  else
    match ← s.step? with
    | (s, .ok (some entry)) => return (s, some (.ok entry))
    | (s, .ok none) => return ({ s with finished := true }, none)
    | (s, .error e) => return ({ s with finished := true }, some (.error e))

/-- What so many calls for the next item get, one after another. -/
def pull? : Nat → RecordStream σ →
    Option (RecordStream σ × List (Option (Except SegmentError (Nat × Record))))
  | 0, s => some (s, [])
  | n + 1, s => do
    let (s, item) ← s.next?
    let (s, items) ← pull? n s
    return (s, item :: items)

namespace Mirrors

variable {s : RecordStream σ} {bytes : Bytes}

/-- The unread bytes are moved within the buffer. -/
theorem compact?_eq (h : s.Mirrors bytes) :
    s.compact? (s.filled - s.start) = some s.compact := by
  have hstart := h.start_le
  have hfilled := h.filled_le
  unfold compact?
  split
  · have hlength : (s.window s.start (s.filled - s.start)).length = s.filled - s.start :=
      length_window (by omega)
    have hunread : s.buffer.slice? s.start s.filled =
        some (s.window s.start (s.filled - s.start)) :=
      Bytes.slice?_of_le hstart hfilled
    have hmoved : overwrite? s.buffer 0 (s.window s.start (s.filled - s.start)) =
        some (overwrite s.buffer 0 (s.window s.start (s.filled - s.start))) :=
      overwrite?_of_le (by omega)
    simp only [hunread, hmoved, Option.bind_eq_bind, Option.bind_some]
    rfl
  · next hstays =>
    have hwindow : s.window s.start (s.filled - s.start) = s.buffer.take (s.filled - s.start) := by
      by_cases hzero : s.start = 0
      · rw [window, hzero, List.drop_zero]
      · have hnone : s.filled - s.start = 0 := by omega
        rw [window, hnone, List.take_zero, List.take_zero]
    rw [RecordStream.compact, hwindow, overwrite_take]
    rfl

/-- What is read from the journal has room in the buffer. -/
theorem fill?_eq (h : s.Mirrors bytes) (hstart : s.start = 0) :
    s.fill? (s.total - s.position) s.filled = some s.fill := by
  have hfilled := h.filled_le
  have hwithin := h.within
  have htotal := h.total
  rw [hstart, Nat.sub_zero] at hwithin
  have hremaining : minus? (s.total - s.position) s.filled =
      some (s.total - s.position - s.filled) :=
    minus?_of_le (by omega)
  unfold fill? RecordStream.fill
  simp only [hremaining, minus?_of_le hfilled, Option.bind_eq_bind, Option.bind_some]
  split
  · rfl
  · rw [h.reads.readAt _ _ (by omega)]
    dsimp only
    rw [overwrite?_of_le]
    · rfl
    · rw [List.length_take, List.length_drop]
      omega

/-- Bytes are made ready within the buffer. -/
theorem ensure?_eq (h : s.Mirrors bytes) (len : Nat) : s.ensure? len = some (s.ensure len) := by
  have hwithin := h.within
  have htotal := h.total
  have hunread : minus? s.total s.position = some (s.total - s.position) :=
    minus?_of_le (by omega)
  unfold ensure? RecordStream.ensure
  simp only [minus?_of_le h.start_le, hunread, h.compact?_eq, Option.bind_eq_bind, Option.bind_some]
  split
  · rfl
  · split
    · rfl
    · have hgrown := h.compact.mirrors.grow len
      have hstart : (s.compact.grow len).start = 0 := start_grow _ _
      have hposition : (s.compact.grow len).position = s.position := hgrown.position
      have hsame : (s.compact.grow len).total = s.total := hgrown.mirrors.total.trans htotal.symm
      have hfill := hgrown.mirrors.fill?_eq hstart
      rw [hposition, hsame, filled_grow] at hfill
      obtain ⟨s', hs', hreloaded, -⟩ := hgrown.mirrors.fill hstart
      have hfill' : (s.compact.grow len).fill? (s.total - s.position) (s.filled - s.start) =
        some (.ok s') := hfill.trans (congrArg some hs')
      simp only [hfill', hs', Option.bind_some, minus?_of_le hreloaded.mirrors.start_le]
      rfl

/-- A frame that stands ready is read within the buffer. -/
theorem readWhole?_eq (h : s.Mirrors bytes) {a : Frame.Announced}
    (ha : a.frameSize ≤ s.filled - s.start) :
    s.readWhole? a = some (Frame.readWhole a (s.window s.start a.frameSize)) := by
  have hstart := h.start_le
  have hfilled := h.filled_le
  have hsize : a.frameSize = Frame.headerSize + a.payloadLength + Frame.checksumSize := rfl
  have hsum : s.buffer.slice? (s.start + Frame.headerSize + a.payloadLength)
      (s.start + Frame.headerSize + a.payloadLength + Frame.checksumSize) =
      some (((s.window s.start a.frameSize).drop (Frame.headerSize + a.payloadLength)).take
        Frame.checksumSize) := by
    rw [Bytes.slice?_of_le (Nat.le_add_right _ _) (by omega), Nat.add_sub_cancel_left, window,
      List.drop_take, List.drop_drop, hsize, Nat.add_sub_cancel_left, List.take_take, Nat.min_self,
      Nat.add_assoc s.start]
  have hbody : s.buffer.slice? s.start (s.start + Frame.headerSize + a.payloadLength) =
      some ((s.window s.start a.frameSize).take (Frame.headerSize + a.payloadLength)) := by
    rw [Bytes.slice?_of_le (by omega) (by omega), window, List.take_take, hsize,
      Nat.min_eq_left (Nat.le_add_right _ _), Nat.add_assoc, Nat.add_sub_cancel_left]
  have hpayload : s.buffer.slice? (s.start + Frame.headerSize)
      (s.start + Frame.headerSize + a.payloadLength) =
      some (((s.window s.start a.frameSize).take (Frame.headerSize + a.payloadLength)).drop
        Frame.headerSize) := by
    rw [Bytes.slice?_of_le (Nat.le_add_right _ _) (by omega), window, List.take_take, hsize,
      Nat.min_eq_left (Nat.le_add_right _ _), List.drop_take, List.drop_drop,
      Nat.add_sub_cancel_left, Nat.add_sub_cancel_left]
  unfold readWhole? Frame.readWhole
  simp only [hsum, hbody, hpayload, Option.bind_eq_bind, Option.bind_some]
  split <;> rfl

/-- A step stays within the buffer. -/
theorem step?_eq (h : s.Mirrors bytes) : s.step? = some s.step := by
  obtain ⟨s₁, hs₁, h₁, hready₁⟩ := h.ensure Frame.headerSize
  unfold step? RecordStream.step
  simp only [h.ensure?_eq, hs₁, Option.bind_eq_bind, Option.bind_some]
  by_cases hheader : s.position + Frame.headerSize ≤ bytes.length
  · have hfilled₁ := h₁.mirrors.filled_le
    have hready := hready₁ hheader
    have hstart₁ := h₁.mirrors.start_le
    have hfront : s₁.buffer.slice? s₁.start (s₁.start + Frame.headerSize) =
        some (s₁.window s₁.start Frame.headerSize) := by
      rw [Bytes.slice?_of_le (Nat.le_add_right _ _) (by omega), Nat.add_sub_cancel_left, window]
    have hlength : (s₁.window s₁.start Frame.headerSize).length = Frame.headerSize :=
      length_window (by omega)
    simp only [decide_eq_true hheader, hfront, Frame.readHeader?_eq hlength, Option.bind_some]
    cases Frame.readHeader s₁.position (s₁.window s₁.start Frame.headerSize) with
    | error e => rfl
    | ok a =>
      obtain ⟨s₂, hs₂, h₂, hready₂⟩ := h₁.mirrors.ensure a.frameSize
      simp only [h₁.mirrors.ensure?_eq, hs₂, Option.bind_some]
      by_cases hframe : s₁.position + a.frameSize ≤ bytes.length
      · simp only [decide_eq_true hframe, h₂.mirrors.readWhole?_eq (hready₂ hframe),
          Option.bind_some]
        cases Frame.readWhole a (s₂.window s₂.start a.frameSize) <;> rfl
      · simp only [decide_eq_false hframe]
        rfl
  · simp only [decide_eq_false hheader]
    rfl

/-- The next item is found within the buffer. -/
theorem next?_eq (h : s.Mirrors bytes) : s.next? = some s.next := by
  unfold next? RecordStream.next
  simp only [h.step?_eq, Option.bind_eq_bind, Option.bind_some]
  split
  · rfl
  · generalize s.step = outcome
    obtain ⟨s', e | entry | entry⟩ := outcome <;> rfl

end Mirrors

end RecordStream

namespace Scan

/-- What comes of a scan one after another: the records, then the error if there is one. -/
def items (s : Scan) : List (Except SegmentError (Nat × Record)) :=
  s.records.map .ok ++ s.stop.toList.map .error

/-- Where a scan stands after so many items: at the next record, or where it ended. -/
def positionAfter (s : Scan) (n : Nat) : Nat := (s.records[n]?.map Prod.fst).getD s.position

/-- A scan from an offset on stands there at first. -/
theorem positionAfter_fromOffset_zero (offset : Nat) (bytes : Bytes) :
    (fromOffset offset bytes).positionAfter 0 = offset := by
  cases hread : Frame.read offset bytes with
  | torn => rw [fromOffset_of_read_torn hread]; rfl
  | fault e => rw [fromOffset_of_read_fault hread]; rfl
  | record r size => rw [fromOffset_of_read_record hread]; rfl

/-- Each record of a scan has at least 15 bytes. -/
theorem length_records_fromOffset_le (offset : Nat) (bytes : Bytes) :
    (fromOffset offset bytes).records.length * 15 ≤ bytes.length := by
  induction offset, bytes using fromOffset.induct with
  | case1 offset bytes hread => rw [fromOffset_of_read_torn hread]; exact Nat.zero_le _
  | case2 offset bytes e hread => rw [fromOffset_of_read_fault hread]; exact Nat.zero_le _
  | case3 offset bytes r size hread ih =>
    obtain ⟨hleast, hmost⟩ := Frame.size_of_read hread
    have hfifteen : 15 ≤ size := hleast
    rw [List.length_drop] at ih
    rw [fromOffset_of_read_record hread, cons, List.length_cons]
    omega

end Scan

namespace RecordStream

variable {σ : Type} [ByteStore σ] {s : RecordStream σ} {bytes : Bytes}

/-- A scan that has ended gets nothing any more. -/
theorem pull?_of_finished (h : s.Mirrors bytes) (hend : s.finished = true) (n : Nat) :
    s.pull? n = some (s, List.replicate n none) := by
  have hnext : s.next = (s, none) := if_pos hend
  induction n with
  | zero => rfl
  | succ n ih =>
    rw [pull?, h.next?_eq, hnext]
    simp only [Option.bind_eq_bind, Option.bind_some, ih]
    rfl

/-- One call more gets the first item, and then what the calls get of what is left. -/
theorem map_range_succ_getElem? {α : Type} (items : List α) (n : Nat) :
    (List.range (n + 1)).map (items[·]?) = items.head? :: (List.range n).map (items.tail[·]?) := by
  rw [List.range_succ_eq_map, List.map_cons, List.map_map, List.head?_eq_getElem?]
  congr 1
  exact List.map_congr_left fun i _ => (List.getElem?_tail ..).symm

/-- Of no items each call gets nothing. -/
theorem map_range_getElem?_nil {α : Type} (n : Nat) :
    (List.range n).map (([] : List α)[·]?) = List.replicate n none := by
  simp only [List.getElem?_nil, List.map_const', List.length_range]

/-- Calls get one item after another of what a scan of the rest of the bytes finds, then nothing. -/
theorem Mirrors.exists_pull? (h : s.Mirrors bytes) (hrunning : s.finished = false) (n : Nat) :
    let rest := Scan.fromOffset s.position (bytes.drop s.position)
    ∃ s', s.pull? n = some (s', (List.range n).map (rest.items[·]?)) ∧ s'.Mirrors bytes ∧
      s'.position = rest.positionAfter n := by
  induction n generalizing s with
  | zero => exact ⟨s, rfl, h, (Scan.positionAfter_fromOffset_zero _ _).symm⟩
  | succ n ih =>
    obtain ⟨s₁, hs₁, h₁⟩ := h.step
    have hnext : ¬s.finished = true := by simp [hrunning]
    dsimp only
    rw [RecordStream.pull?, h.next?_eq, RecordStream.next, if_neg hnext, hs₁,
      map_range_succ_getElem?]
    cases hread : Frame.read s.position (bytes.drop s.position) with
    | torn =>
      rw [hread] at h₁
      have hend := h₁.drained rfl
      rw [Scan.fromOffset_of_read_torn hread]
      refine ⟨_, ?_, hend.mirrors, hend.position⟩
      simp only [answer, Option.bind_eq_bind, Option.bind_some, pull?_of_finished hend.mirrors rfl,
        ← map_range_getElem?_nil n]
      rfl
    | fault e =>
      rw [hread] at h₁
      have hend := h₁.drained rfl
      rw [Scan.fromOffset_of_read_fault hread]
      refine ⟨_, ?_, hend.mirrors, hend.position⟩
      simp only [answer, Option.bind_eq_bind, Option.bind_some, pull?_of_finished hend.mirrors rfl,
        ← map_range_getElem?_nil n]
      rfl
    | record r size =>
      rw [hread] at h₁
      obtain ⟨s', hs', hmirrors, hposition⟩ := ih h₁.mirrors (h₁.finished.trans hrunning)
      have hstep : s₁.position = s.position + size := h₁.position
      rw [hstep, ← List.drop_drop] at hs' hposition
      rw [Scan.fromOffset_of_read_record hread]
      refine ⟨s', ?_, hmirrors, hposition⟩
      simp only [answer, Option.bind_eq_bind, Option.bind_some, hs']
      rfl

/-- A stream over any bytes gives the records and the error that a scan of the whole byte string
finds, one for each call, and nothing after them. No call goes out of the bounds of the buffer or
of the journal, as the next one does not, and after each the buffer mirrors the journal at the
position of the scan. -/
theorem pull?_ofSource (journal : Bytes) :
    (∀ n, ∃ s, (ofSource (Memory.mk journal)).pull? n =
        some (s, (List.range n).map ((Scan.ofJournal journal).items[·]?)) ∧
      s.Mirrors journal ∧ s.position = (Scan.ofJournal journal).positionAfter n ∧
      s.next? = some s.next) ∧
    (Scan.ofJournal journal).records.length ≤ journal.length / 15 := by
  refine ⟨fun n => ?_, ?_⟩
  · obtain ⟨s, hs, hmirrors, hposition⟩ :=
      (mirrors_ofSource (Memory.reads journal)).exists_pull? rfl n
    exact ⟨s, hs, hmirrors, hposition, hmirrors.next?_eq⟩
  · exact (Nat.le_div_iff_mul_le (by decide)).mpr (Scan.length_records_fromOffset_le 0 journal)

end RecordStream

end Segments
