import Segments.Proofs.Recovery

/-!
# A damaged length

The length of a payload is read before the checksum that covers it. A length that reaches past the
end of the journal is therefore taken for the mark of a torn tail: the frame and all frames after
it are cut off, and the store opens without them. A length that stays within the journal is found
out by the checksum, unless the bytes that stand where it is looked for happen to match.
-/

namespace Segments

namespace Frame

/-- Bytes that are one whole frame of a record. -/
def IsFrame (frame : Bytes) : Prop := ∃ r, read 0 frame = .record r frame.length

/-- What a header announces does not depend on where it stands. -/
theorem readHeader_of_ok {offset : Nat} {front : Bytes} {a : Announced}
    (h : readHeader offset front = .ok a) (offset' : Nat) : readHeader offset' front = .ok a := by
  unfold readHeader at h ⊢
  split at h
  · cases h
  next hmagic =>
  rw [if_neg hmagic]
  dsimp only at h ⊢
  split at h
  · cases h
  next hversion =>
  rw [if_neg hversion]
  split at h
  · cases h
  · exact h

/-- The parts that a frame is read by. -/
theorem IsFrame.exists_parts {frame : Bytes} (h : IsFrame frame) :
    ∃ r front tail a, Bytes.takeExactly headerSize frame = some (front, tail) ∧
      (∀ offset, readHeader offset front = .ok a) ∧ a.frameSize = frame.length ∧
      readWhole a frame = .ok r := by
  obtain ⟨r, h⟩ := h
  unfold read at h
  split at h
  · cases h
  next front tail hfront =>
  split at h
  · cases h
  next a ha =>
  split at h
  · cases h
  next whole rest hwhole =>
  split at h
  · cases h
  next r' hr =>
  simp only [Found.record.injEq] at h
  obtain ⟨rfl, hsize⟩ := h
  obtain ⟨hsplit, hlength⟩ := Bytes.takeExactly_eq_some_iff.mp hwhole
  have hrest : rest = [] := by
    have := congrArg List.length hsplit
    rw [List.length_append] at this
    exact List.eq_nil_of_length_eq_zero (by omega)
  rw [hrest, List.append_nil] at hsplit
  exact ⟨r', front, tail, a, hfront, readHeader_of_ok ha, hsize, hsplit ▸ hr⟩

/-- A whole frame is read back wherever it stands and whatever comes after it. -/
theorem IsFrame.exists_read {frame : Bytes} (h : IsFrame frame) :
    ∃ r, ∀ offset rest, read offset (frame ++ rest) = .record r frame.length := by
  obtain ⟨r, front, tail, a, hfront, ha, hsize, hr⟩ := h.exists_parts
  refine ⟨r, fun offset rest => ?_⟩
  obtain ⟨hsplit, hlength⟩ := Bytes.takeExactly_eq_some_iff.mp hfront
  have hheader : Bytes.takeExactly headerSize (frame ++ rest) = some (front, tail ++ rest) :=
    Bytes.takeExactly_eq_some_iff.mpr ⟨by rw [hsplit, List.append_assoc], hlength⟩
  have hwhole : Bytes.takeExactly a.frameSize (frame ++ rest) = some (frame, rest) := by
    rw [hsize]
    exact Bytes.takeExactly_append _ _
  simp only [read, hheader, ha, hwhole, hr]
  rw [hsize]

/-- The frames that are written are whole frames. -/
theorem isFrame_whole {r : Record} (hr : r.Framable) : IsFrame (whole r) := by
  have h := read_whole hr 0 []
  rw [List.append_nil] at h
  exact ⟨r, h⟩

/-- A frame with other bytes in the place of its payload length. -/
def relabelled (frame field : Bytes) : Bytes := frame.take 7 ++ field ++ frame.drop headerSize

/-- Another payload length leaves a frame as long as it was. -/
theorem length_relabelled {frame field : Bytes} (hframe : headerSize ≤ frame.length)
    (hfield : field.length = 4) : (relabelled frame field).length = frame.length := by
  rw [headerSize] at hframe
  simp only [relabelled, headerSize, List.length_append, List.length_take, List.length_drop, hfield]
  omega

/-- With its own payload length a frame is as it was. -/
theorem relabelled_whole (r : Record) :
    relabelled (whole r) (Bytes.littleEndian 4 r.encodeFitting.length) = whole r := by
  let label := magic ++ Bytes.littleEndian 2 version ++ Bytes.littleEndian 1 r.kind.code
  let sum := Bytes.littleEndian 4
    (Checksum.crc32 (header r.kind r.encodeFitting.length ++ r.encodeFitting)).toNat
  have hlabel : label.length = 7 := by simp [label, magic]
  have hwhole : whole r = header r.kind r.encodeFitting.length ++ (r.encodeFitting ++ sum) :=
    List.append_assoc _ _ _
  have hheader : header r.kind r.encodeFitting.length =
      label ++ Bytes.littleEndian 4 r.encodeFitting.length := rfl
  have htake : (whole r).take 7 = label := by
    rw [hwhole, hheader, List.append_assoc, List.take_left' hlabel]
  rw [relabelled, htake, ← hheader, hwhole, List.drop_left' (length_header _ _)]

/-- The checksum that is stored after so many bytes. -/
def storedChecksum (bytes : Bytes) (covered : Nat) : UInt32 :=
  UInt32.ofNat (Bytes.ofLittleEndian ((bytes.drop covered).take checksumSize))

/-- A frame is torn if its header announces more bytes than there are. -/
theorem read_of_lt {offset : Nat} {bytes front tail : Bytes} {a : Announced}
    (hfront : Bytes.takeExactly headerSize bytes = some (front, tail))
    (ha : readHeader offset front = .ok a) (hlt : bytes.length < a.frameSize) :
    read offset bytes = .torn := by
  simp only [read, hfront, ha, Bytes.takeExactly_eq_none_iff.mpr hlt]

/-- A frame is at fault if another checksum is stored in it than that of its bytes. -/
theorem read_of_ne {offset : Nat} {bytes front tail : Bytes} {a : Announced}
    (hfront : Bytes.takeExactly headerSize bytes = some (front, tail))
    (ha : readHeader offset front = .ok a) (hle : a.frameSize ≤ bytes.length) {covered : Nat}
    (hcovered : covered = headerSize + a.payloadLength)
    (hne : storedChecksum bytes covered ≠ Checksum.crc32 (bytes.take covered)) :
    read offset bytes = .fault
      (.checksumMismatch (storedChecksum bytes covered) (Checksum.crc32 (bytes.take covered))) := by
  subst hcovered
  have hwhole : Bytes.takeExactly a.frameSize bytes =
      some (bytes.take a.frameSize, bytes.drop a.frameSize) :=
    Bytes.takeExactly_eq_some_iff.mpr
      ⟨(List.take_append_drop _ _).symm, List.length_take_of_le hle⟩
  have hbody : (bytes.take a.frameSize).take (headerSize + a.payloadLength) =
      bytes.take (headerSize + a.payloadLength) := by
    rw [List.take_take, Announced.frameSize, Nat.min_eq_left (Nat.le_add_right _ _)]
  have hsum : ((bytes.take a.frameSize).drop (headerSize + a.payloadLength)).take checksumSize =
      (bytes.drop (headerSize + a.payloadLength)).take checksumSize := by
    rw [List.drop_take, Announced.frameSize, Nat.add_sub_cancel_left, List.take_take, Nat.min_self]
  rw [storedChecksum] at hne ⊢
  simp only [read, hfront, ha, hwhole, readWhole, hbody, hsum]
  rw [if_neg hne]

/-- A header with another payload length announces that length. -/
theorem readHeader_take_append {offset : Nat} {front field : Bytes} {a : Announced}
    (h : readHeader offset front = .ok a) (hfront : front.length = headerSize)
    (hfield : field.length = 4) :
    readHeader offset (front.take 7 ++ field) = .ok ⟨a.kind, Bytes.ofLittleEndian field⟩ := by
  have hseven : (front.take 7).length = 7 := by
    rw [List.length_take, hfront]
    rfl
  have hmagic : (front.take 7 ++ field).take 4 = front.take 4 := by
    rw [List.take_append_of_le_length (by rw [hseven]; decide), List.take_take]
    rfl
  have hmiddle : ∀ i n, i + n ≤ 7 →
      ((front.take 7 ++ field).drop i).take n = (front.drop i).take n := by
    intro i n hin
    have hfits : n ≤ ((front.take 7).drop i).length := by
      rw [List.length_drop, hseven]
      omega
    rw [List.drop_append_of_le_length (by omega), List.take_append_of_le_length hfits,
      List.drop_take, List.take_take, Nat.min_eq_left (by omega)]
  have hlength : ((front.take 7 ++ field).drop 7).take 4 = field := by
    rw [List.drop_left' hseven, ← hfield, List.take_length]
  unfold readHeader at h ⊢
  rw [hmagic, hmiddle 4 2 (by decide), hmiddle 6 1 (by decide), hlength]
  split at h
  · cases h
  next hm =>
  rw [if_neg hm]
  dsimp only at h ⊢
  split at h
  · cases h
  next hv =>
  rw [if_neg hv]
  split at h
  · cases h
  next kind hk =>
  cases h
  rfl

/-- The header that is read at a frame with another payload length. -/
theorem IsFrame.exists_header_relabelled {frame field : Bytes} (h : IsFrame frame)
    (hfield : field.length = 4) (after : Bytes) :
    ∃ kind front tail, Bytes.takeExactly headerSize (relabelled frame field ++ after) =
        some (front, tail) ∧
      ∀ offset, readHeader offset front = .ok ⟨kind, Bytes.ofLittleEndian field⟩ := by
  obtain ⟨r, front, tail, a, hfront, ha, hsize, hr⟩ := h.exists_parts
  obtain ⟨hsplit, hlength⟩ := Bytes.takeExactly_eq_some_iff.mp hfront
  refine ⟨a.kind, front.take 7 ++ field, tail ++ after,
    Bytes.takeExactly_eq_some_iff.mpr ⟨?_, ?_⟩,
    fun offset => readHeader_take_append (ha offset) hlength hfield⟩
  · have hseven : frame.take 7 = front.take 7 := by
      rw [hsplit, List.take_append_of_le_length (by rw [hlength]; decide)]
    have htail : frame.drop headerSize = tail := by
      rw [hsplit, List.drop_left' hlength]
    rw [relabelled, hseven, htail, List.append_assoc]
  · rw [List.length_append, List.length_take, hlength, hfield]
    rfl

end Frame

namespace Scan

/-- Whole frames in front of a journal add their records in front of the scan. -/
theorem exists_fromOffset_flatten {frames : List Bytes} (h : ∀ f ∈ frames, Frame.IsFrame f)
    (offset : Nat) :
    ∃ records, ∀ rest, fromOffset offset (frames.flatten ++ rest) =
      { fromOffset (offset + frames.flatten.length) rest with
        records := records ++ (fromOffset (offset + frames.flatten.length) rest).records } := by
  induction frames generalizing offset with
  | nil => exact ⟨[], fun rest => by simp⟩
  | cons f frames ih =>
    obtain ⟨r, hr⟩ := (h f List.mem_cons_self).exists_read
    obtain ⟨records, hrecords⟩ :=
      ih (fun f' hf' => h f' (List.mem_cons_of_mem _ hf')) (offset + f.length)
    refine ⟨(offset, r) :: records, fun rest => ?_⟩
    rw [List.flatten_cons, List.append_assoc, fromOffset]
    split
    · next he => simp [hr] at he
    · next he => simp [hr] at he
    · next he =>
      rw [hr, Frame.Found.record.injEq] at he
      obtain ⟨rfl, rfl⟩ := he
      rw [List.drop_left, hrecords, List.length_append, ← Nat.add_assoc]
      rfl

end Scan

namespace Engine

/-- A journal whose scan ends with an error does not open, and is left as it is. -/
theorem openStore_of_stop {journal : Bytes} {records : List (Nat × Record)} {position : Nat}
    {e : SegmentError} (hscan : Scan.ofJournal journal = ⟨records, position, some e⟩)
    {r : Replayed} (hr : (Replayed.start.steps records).2 = .ok r) (config : Config)
    (store : AttributeStore) (clock : AttributeValue) :
    ∃ reports, openStore config journal store clock = ⟨journal, store, reports, .error e⟩ := by
  have hofScan : ∃ events, Replayed.ofScan ⟨records, position, some e⟩ = (events, .error e) := by
    refine ⟨(Replayed.start.steps records).1, ?_⟩
    simp only [Replayed.ofScan]
    split
    · next he => rw [he] at hr; cases hr
    · next he => rw [he]
  obtain ⟨events, hofScan⟩ := hofScan
  simp only [openStore, hscan, hofScan]
  exact ⟨_, rfl⟩

variable {before : List Bytes} {config : Config} {store : AttributeStore} {clock : AttributeValue}

/-- Frames that open with something after them are replayed without a contradiction. -/
theorem exists_records_of_openStore (hbefore : ∀ f ∈ before, Frame.IsFrame f) {rest : Bytes}
    {s : Engine} (hs : (Engine.openStore config (before.flatten ++ rest) store clock).result =
      .ok s) :
    ∃ records r, (Replayed.start.steps records).2 = .ok r ∧ ∀ rest' position stop,
      Scan.fromOffset before.flatten.length rest' = ⟨[], position, stop⟩ →
        Scan.ofJournal (before.flatten ++ rest') = ⟨records, position, stop⟩ := by
  obtain ⟨records, hrecords⟩ := Scan.exists_fromOffset_flatten hbefore 0
  rw [Nat.zero_add] at hrecords
  obtain ⟨q, hq, -⟩ := exists_steps_of_openStore hs
  rw [Scan.ofJournal, hrecords] at hq
  obtain ⟨r, hr, -⟩ := Replayed.steps_append_eq_ok_iff.mp hq
  refine ⟨records, r, hr, fun rest' position stop hrest' => ?_⟩
  rw [Scan.ofJournal, hrecords, hrest', List.append_nil]

/-- What comes after whole frames and looks torn is cut off, whatever it is. -/
theorem openStore_of_read_torn (hbefore : ∀ f ∈ before, Frame.IsFrame f)
    (htaking : store.refusing = false) {rest : Bytes} {s : Engine}
    (hs : (Engine.openStore config (before.flatten ++ rest) store clock).result = .ok s)
    {rest' : Bytes} (htorn : Frame.read before.flatten.length rest' = .torn) :
    let opening := Engine.openStore config (before.flatten ++ rest') store clock
    ∃ s', opening.result = .ok s' ∧ opening.journal = before.flatten ∧
      (Engine.openStore config before.flatten store clock).result = .ok s' := by
  obtain ⟨records, r, hr, hscan⟩ := exists_records_of_openStore hbefore hs
  obtain ⟨store', repairs, n, hrec⟩ := AttributeStore.exists_reconcile htaking r
  obtain ⟨reports, hopening⟩ := openStore_of_steps
    (hscan rest' _ _ (Scan.fromOffset_of_read_torn htorn)) hr hrec config clock
  obtain ⟨reports', hfront⟩ := openStore_of_steps
    (hscan [] _ _ (Scan.fromOffset_of_torn Frame.torn_nil _)) hr hrec config clock
  rw [List.take_left] at hopening
  rw [List.append_nil, List.take_length] at hfront
  exact ⟨_, congrArg Opening.result hopening, congrArg Opening.journal hopening,
    congrArg Opening.result hfront⟩

/-- What comes after whole frames and cannot be read makes the store fail to open. -/
theorem openStore_of_read_fault (hbefore : ∀ f ∈ before, Frame.IsFrame f) {rest : Bytes}
    {s : Engine}
    (hs : (Engine.openStore config (before.flatten ++ rest) store clock).result = .ok s)
    {rest' : Bytes} {e : SegmentError}
    (hfault : Frame.read before.flatten.length rest' = .fault e) :
    let opening := Engine.openStore config (before.flatten ++ rest') store clock
    opening.result = .error e ∧ opening.journal = before.flatten ++ rest' := by
  obtain ⟨records, r, hr, hscan⟩ := exists_records_of_openStore hbefore hs
  obtain ⟨reports, hopening⟩ := openStore_of_stop
    (hscan rest' _ _ (Scan.fromOffset_of_read_fault hfault)) hr config store clock
  exact ⟨congrArg Opening.result hopening, congrArg Opening.journal hopening⟩

/-- The length of a payload is changed in a journal that opens. If the new length reaches past the
end, the store opens with the frames before the damaged one and the journal is cut off there; if it
does not, and the checksum does not match, the store fails to open and the journal is kept. -/
theorem openStore_relabelled (hbefore : ∀ f ∈ before, Frame.IsFrame f)
    {frame field after : Bytes} (hframe : Frame.IsFrame frame) (hfield : field.length = 4)
    (htaking : store.refusing = false) {s : Engine}
    (hs : (Engine.openStore config (before.flatten ++ (frame ++ after)) store clock).result =
      .ok s) :
    let damaged := Frame.relabelled frame field ++ after
    let covered := Frame.headerSize + Bytes.ofLittleEndian field
    let opening := Engine.openStore config (before.flatten ++ damaged) store clock
    (damaged.length < covered + Frame.checksumSize → ∃ s', opening.result = .ok s' ∧
      opening.journal = before.flatten ∧
      (Engine.openStore config before.flatten store clock).result = .ok s') ∧
    (covered + Frame.checksumSize ≤ damaged.length →
      Frame.storedChecksum damaged covered ≠ Checksum.crc32 (damaged.take covered) →
      opening.result = .error (.checksumMismatch (Frame.storedChecksum damaged covered)
        (Checksum.crc32 (damaged.take covered))) ∧
      opening.journal = before.flatten ++ damaged) := by
  intro damaged covered opening
  obtain ⟨kind, header, tail, hheader, hannounced⟩ :=
    hframe.exists_header_relabelled hfield after
  constructor
  · intro hlt
    exact openStore_of_read_torn hbefore htaking hs (Frame.read_of_lt hheader (hannounced _) hlt)
  · intro hle hne
    exact openStore_of_read_fault hbefore hs
      (Frame.read_of_ne hheader (hannounced _) hle rfl hne)

/-- The frames of a segment with two appends, the first of which is to be damaged. -/
theorem exists_openStore_appends : ∃ s, (Engine.openStore .standard
    ([Frame.whole (.create 1 "a" [])].flatten ++
      (Frame.whole (.append 1 0 [0xAA] []) ++ Frame.whole (.append 1 1 [0xBB] []))) .empty
    0).result = .ok s := by
  let rs : List Record := [.create 1 "a" [], .append 1 0 [0xAA] [], .append 1 1 [0xBB] []]
  have hframable : ∀ r ∈ rs, r.Framable := by
    simp only [rs, Record.Framable]
    decide +kernel
  obtain ⟨r, hr⟩ : ∃ r, (Replayed.start.steps (Scan.placed 0 rs)).2 = .ok r := ⟨_, rfl⟩
  obtain ⟨s, hs, -⟩ := exists_openStore hframable hr .standard 0
  refine ⟨s, ?_⟩
  rw [← hs]
  simp only [rs, Frame.wholes, List.flatMap_cons, List.flatMap_nil, List.flatten_cons,
    List.flatten_nil, List.append_nil]

theorem isFrame_create : ∀ f ∈ [Frame.whole (.create 1 "a" [])], Frame.IsFrame f := by
  intro f hf
  rw [List.mem_singleton.mp hf]
  exact Frame.isFrame_whole ⟨by decide, by decide⟩

/-- A length that is raised by one bit hides two appends, one that is cleared is found out. -/
theorem openStore_relabelled_of_bits :
    let front := [Frame.whole (.create 1 "a" [])].flatten
    let first := Frame.whole (.append 1 0 [0xAA] [])
    let second := Frame.whole (.append 1 1 [0xBB] [])
    (Engine.openStore .standard (front ++ (Frame.relabelled first [48, 0, 1, 0] ++ second)) .empty
      0).journal = front ∧
    ∃ stored computed, (Engine.openStore .standard
      (front ++ (Frame.relabelled first [0, 0, 0, 0] ++ second)) .empty 0).result =
        .error (.checksumMismatch stored computed) := by
  intro front first second
  obtain ⟨s, hs⟩ := exists_openStore_appends
  have hfirst : Frame.IsFrame first := Frame.isFrame_whole ⟨by decide, by decide⟩
  have hlength : ∀ field : Bytes, field.length = 4 →
      (Frame.relabelled first field ++ second).length = first.length + second.length :=
    fun field hfield => by
      rw [List.length_append, Frame.length_relabelled (by decide +kernel) hfield]
  have hraised : ([48, 0, 1, 0] : Bytes).length = 4 := rfl
  have hcleared : ([0, 0, 0, 0] : Bytes).length = 4 := rfl
  obtain ⟨s', -, hjournal, -⟩ :=
    (openStore_relabelled isFrame_create hfirst hraised rfl hs).1 (by
      rw [hlength _ hraised, Frame.length_whole, Frame.length_whole]
      decide +kernel)
  obtain ⟨herror, -⟩ := (openStore_relabelled isFrame_create hfirst hcleared rfl hs).2 (by
      rw [hlength _ hcleared, Frame.length_whole, Frame.length_whole]
      decide +kernel) (by decide +kernel)
  exact ⟨hjournal, _, _, herror⟩

/-- Two appends follow the creation of a segment, and one bit in the length of the first is turned
over: the store opens without them, and the journal is cut off before them. -/
theorem openStore_of_length_damaged :
    let front := [Frame.whole (.create 1 "a" [])].flatten
    let first := Frame.whole (.append 1 0 [0xAA] [])
    let second := Frame.whole (.append 1 1 [0xBB] [])
    (∃ s, (Engine.openStore .standard (front ++ (first ++ second)) .empty 0).result = .ok s) ∧
    Frame.relabelled first [48, 0, 0, 0] = first ∧
    ∃ s, (Engine.openStore .standard (front ++ (Frame.relabelled first [48, 0, 1, 0] ++ second))
      .empty 0).result = .ok s ∧
      (Engine.openStore .standard (front ++ (Frame.relabelled first [48, 0, 1, 0] ++ second))
        .empty 0).journal = front := by
  intro front first second
  obtain ⟨s, hs⟩ := exists_openStore_appends
  have hfirst : Frame.IsFrame first := Frame.isFrame_whole ⟨by decide, by decide⟩
  have hraised : ([48, 0, 1, 0] : Bytes).length = 4 := rfl
  obtain ⟨kind, header, tail, hheader, hannounced⟩ :=
    hfirst.exists_header_relabelled hraised second
  have htorn := Frame.read_of_lt hheader (hannounced front.length) (by
    rw [List.length_append, Frame.length_relabelled (by decide +kernel) hraised,
      Frame.length_whole, Frame.length_whole]
    simp only [Frame.Announced.frameSize]
    decide +kernel)
  obtain ⟨s', hs', hjournal, -⟩ := openStore_of_read_torn isFrame_create rfl hs htorn
  exact ⟨⟨s, hs⟩, Frame.relabelled_whole (.append 1 0 [0xAA] []), s', hs', hjournal⟩

end Engine

end Segments
