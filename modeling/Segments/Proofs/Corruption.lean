import Segments.Proofs.Checksum
import Segments.Proofs.Damage
import Segments.Proofs.RoundTrip

/-!
# A damaged byte

One byte of a frame that is changed is found out where it stands, unless it is one of the four
bytes of the payload length. The magic, the version and the kind are checked when the header is
read; whatever passes there has the same length, so that the same bytes are covered by the
checksum, and either they or the checksum itself have changed in one byte.
-/

namespace Segments

/-- The errors that tell of damage in a journal. -/
inductive SegmentError.IsDamage : SegmentError → Prop
  /-- Something in a header or payload cannot be. -/
  | corruption (message : String) : IsDamage (.journalCorruption message)
  /-- The bytes of a frame have another checksum than the one stored. -/
  | mismatch (stored computed : UInt32) : IsDamage (.checksumMismatch stored computed)

namespace Bytes

theorem ofLittleEndian_lt (bytes : Bytes) : ofLittleEndian bytes < capacity bytes.length := by
  induction bytes with
  | nil => exact Nat.one_pos
  | cons b bytes ih =>
    have hb := b.toNat_lt
    rw [ofLittleEndian, List.length_cons, capacity]
    omega

/-- Different bytes of one length are different numbers. -/
theorem ofLittleEndian_inj {a b : Bytes} (hlength : a.length = b.length)
    (h : ofLittleEndian a = ofLittleEndian b) : a = b := by
  induction a generalizing b with
  | nil => exact (List.eq_nil_of_length_eq_zero hlength.symm).symm
  | cons x a ih =>
    cases b with
    | nil => cases hlength
    | cons y b =>
      have hx := x.toNat_lt
      have hy := y.toNat_lt
      simp only [ofLittleEndian] at h
      have hlow : x = y := UInt8.toNat_inj.mp (by omega)
      have hhigh : a = b := ih (Nat.succ.inj hlength) (by omega)
      rw [hlow, hhigh]

/-- A changed byte makes other bytes. -/
theorem set_ne {bytes : Bytes} {i : Nat} {b : UInt8} (hi : i < bytes.length)
    (hb : bytes[i]? ≠ some b) : bytes.set i b ≠ bytes := by
  intro h
  apply hb
  rw [← h, List.getElem?_set_self hi]

end Bytes

namespace Frame

/-- A header is refused as corrupt, or announces the payload length that stands in it. -/
theorem readHeader_cases (offset : Nat) (front : Bytes) :
    (∃ m, readHeader offset front = .error (.journalCorruption m)) ∨
      ∃ kind, readHeader offset front =
        .ok ⟨kind, Bytes.ofLittleEndian ((front.drop 7).take 4)⟩ := by
  unfold readHeader
  split
  · exact Or.inl ⟨_, rfl⟩
  · dsimp only
    split
    · exact Or.inl ⟨_, rfl⟩
    · split
      · exact Or.inl ⟨_, rfl⟩
      · exact Or.inr ⟨_, rfl⟩

/-- The header behind a damaged byte announces the length it announced before. -/
theorem take_drop_seven_set {frame : Bytes} {i : Nat} (hfield : i < 7 ∨ headerSize ≤ i)
    (b : UInt8) : (((frame.set i b).take headerSize).drop 7).take 4 =
      ((frame.take headerSize).drop 7).take 4 := by
  have hin : headerSize - 7 = 4 := rfl
  rw [List.drop_take, List.drop_take, hin, List.take_take, List.take_take]
  rcases hfield with hlow | hhigh
  · rw [List.drop_set, if_pos hlow]
  · rw [headerSize] at hhigh
    rw [List.drop_set, if_neg (by omega), List.take_set, List.set_eq_of_length_le]
    rw [List.length_take]
    omega

/-- The checksum that is stored in a whole frame is that of its bytes. -/
theorem storedChecksum_of_readWhole {frame : Bytes} {a : Announced} {r : Record}
    (h : readWhole a frame = .ok r) : storedChecksum frame (headerSize + a.payloadLength) =
      Checksum.crc32 (frame.take (headerSize + a.payloadLength)) := by
  by_contra hne
  rw [storedChecksum] at hne
  simp only [readWhole] at h
  rw [if_neg hne] at h
  cases h

/-- Another byte in its place makes another stored checksum. -/
theorem storedChecksum_set_ne {frame : Bytes} {covered i : Nat} {b : UInt8}
    (hlength : covered + checksumSize = frame.length) (hcovered : covered ≤ i)
    (hi : i < frame.length) (hb : frame[i]? ≠ some b) :
    storedChecksum (frame.set i b) covered ≠ storedChecksum frame covered := by
  have hsum : (frame.drop covered).length = checksumSize := by
    rw [List.length_drop]
    omega
  have hset : (frame.set i b).drop covered = (frame.drop covered).set (i - covered) b := by
    rw [List.drop_set, if_neg (Nat.not_lt.mpr hcovered)]
  have hsum' : ((frame.drop covered).set (i - covered) b).length = checksumSize := by
    rw [List.length_set, hsum]
  have hne : (frame.drop covered).set (i - covered) b ≠ frame.drop covered := by
    refine Bytes.set_ne (by rw [hsum]; omega) ?_
    rwa [List.getElem?_drop, Nat.add_sub_cancel' hcovered]
  have hlt : ∀ bytes : Bytes, bytes.length = checksumSize →
      Bytes.ofLittleEndian bytes < 2 ^ 32 := by
    intro bytes hbytes
    have h := Bytes.ofLittleEndian_lt bytes
    rwa [hbytes] at h
  intro heq
  rw [storedChecksum, storedChecksum, hset, List.take_of_length_le (Nat.le_of_eq hsum'),
    List.take_of_length_le (Nat.le_of_eq hsum)] at heq
  have hnat := congrArg UInt32.toNat heq
  rw [UInt32.toNat_ofNat_of_lt' (hlt _ hsum'), UInt32.toNat_ofNat_of_lt' (hlt _ hsum)] at hnat
  exact hne (Bytes.ofLittleEndian_inj (hsum'.trans hsum.symm) hnat)

/-- A changed byte that the checksum covers, or that is of the checksum, makes the stored checksum
another one than that of the bytes. -/
theorem storedChecksum_set_ne_crc32 {frame : Bytes} {covered i : Nat} {b : UInt8}
    (hlength : covered + checksumSize = frame.length) (hi : i < frame.length)
    (hb : frame[i]? ≠ some b)
    (hstored : storedChecksum frame covered = Checksum.crc32 (frame.take covered)) :
    storedChecksum (frame.set i b) covered ≠ Checksum.crc32 ((frame.set i b).take covered) := by
  by_cases hcovered : i < covered
  · have hin : i < (frame.take covered).length := by
      rw [List.length_take]
      omega
    have hold : (frame.take covered)[i]? ≠ some b := by
      rwa [List.getElem?_take_of_lt hcovered]
    rw [storedChecksum, List.drop_set, if_pos hcovered, ← storedChecksum, hstored, List.take_set]
    exact (Checksum.crc32_set_ne hin hold).symm
  · have hcovered := Nat.not_lt.mp hcovered
    have hout : (frame.take covered).length ≤ i := by
      rw [List.length_take]
      omega
    rw [List.take_set, List.set_eq_of_length_le hout, ← hstored]
    exact storedChecksum_set_ne hlength hcovered hi hb

/-- A whole frame in which a byte other than of the payload length was changed is at fault. -/
theorem IsFrame.read_set {frame : Bytes} (h : IsFrame frame) {i : Nat} {b : UInt8}
    (hi : i < frame.length) (hfield : i < 7 ∨ headerSize ≤ i) (hb : frame[i]? ≠ some b)
    (offset : Nat) (rest : Bytes) :
    ∃ e, e.IsDamage ∧ read offset (frame.set i b ++ rest) = .fault e := by
  obtain ⟨r, front, tail, a, hfront, ha, hsize, hr⟩ := h.exists_parts
  obtain ⟨hsplit, hheader⟩ := Bytes.takeExactly_eq_some_iff.mp hfront
  have hcovered : headerSize + a.payloadLength + checksumSize = frame.length := hsize
  have hlength : (frame.set i b).length = frame.length := List.length_set ..
  have hfront' : Bytes.takeExactly headerSize (frame.set i b ++ rest) =
      some ((frame.set i b).take headerSize, (frame.set i b).drop headerSize ++ rest) := by
    refine Bytes.takeExactly_eq_some_iff.mpr ⟨?_, ?_⟩
    · rw [← List.append_assoc, List.take_append_drop]
    · rw [List.length_take]
      omega
  have hpayload : ((frame.take headerSize).drop 7).take 4 = (front.drop 7).take 4 := by
    rw [hsplit, List.take_left' hheader]
  have hannounced : Bytes.ofLittleEndian ((front.drop 7).take 4) = a.payloadLength := by
    rcases readHeader_cases 0 front with ⟨m, hm⟩ | ⟨kind, hkind⟩
    · rw [ha] at hm
      cases hm
    · rw [ha, Except.ok.injEq] at hkind
      rw [hkind]
  rcases readHeader_cases offset ((frame.set i b).take headerSize) with ⟨m, hm⟩ | ⟨kind, hkind⟩
  · exact ⟨_, .corruption m, by simp only [read, hfront', hm]⟩
  · rw [take_drop_seven_set hfield, hpayload, hannounced] at hkind
    have hin : headerSize + a.payloadLength ≤ (frame.set i b).length := by omega
    have hwithin : (Announced.mk kind a.payloadLength).frameSize ≤
        (frame.set i b ++ rest).length := by
      rw [List.length_append, hlength, ← hsize]
      exact Nat.le_add_right _ _
    have hstored : storedChecksum (frame.set i b ++ rest) (headerSize + a.payloadLength) =
        storedChecksum (frame.set i b) (headerSize + a.payloadLength) := by
      rw [storedChecksum, List.drop_append_of_le_length hin, List.take_append_of_le_length,
        storedChecksum]
      rw [List.length_drop]
      omega
    refine ⟨_, .mismatch _ _, read_of_ne hfront' hkind hwithin rfl ?_⟩
    rw [hstored, List.take_append_of_le_length hin]
    exact storedChecksum_set_ne_crc32 hcovered hi hb (storedChecksum_of_readWhole hr)

end Frame

/-- A byte that is changed in one of the frames of a journal changes that frame only. -/
theorem flatten_set {front back : List Bytes} {frame : Bytes} {i : Nat} (hi : i < frame.length)
    (b : UInt8) : (front ++ frame :: back).flatten.set (front.flatten.length + i) b =
      front.flatten ++ (frame.set i b ++ back.flatten) := by
  rw [List.flatten_append, List.flatten_cons, List.set_append_right _ _ (Nat.le_add_right _ _),
    Nat.add_sub_cancel_left, List.set_append_left _ _ hi]

/-- A scan of whole frames, in one of which a byte other than of the payload length was changed,
finds the records before that frame and ends with an error where the frame starts. -/
theorem Scan.exists_ofJournal_set {rs : List Record} {front back : List Bytes} {frame : Bytes}
    (hframes : rs.mapM Frame.encode = .ok (front ++ frame :: back)) {i : Nat} {b : UInt8}
    (hi : i < frame.length) (hfield : i < 7 ∨ Frame.headerSize ≤ i) (hb : frame[i]? ≠ some b) :
    ∃ e, e.IsDamage ∧
      ofJournal ((front ++ frame :: back).flatten.set (front.flatten.length + i) b) =
        ⟨(Frame.starts 0 front).zip (rs.take front.length), front.flatten.length, some e⟩ := by
  obtain ⟨hrs, hwhole⟩ := Frame.mapM_encode_eq_ok_iff.mp hframes
  obtain ⟨before, later, rfl, rfl, hlater⟩ := List.append_eq_map_iff.mp hwhole
  obtain ⟨r, after, rfl, rfl, rfl⟩ := List.map_eq_cons_iff.mp hlater
  have hbefore : ∀ r' ∈ before, r'.Framable := fun r' h => hrs r' (List.mem_append_left _ h)
  have hr : r.Framable := hrs r (List.mem_append_right _ List.mem_cons_self)
  have htake : (before ++ r :: after).take (before.map Frame.whole).length = before := by
    rw [List.length_map, List.take_left]
  obtain ⟨e, he, hread⟩ := (Frame.isFrame_whole hr).read_set hi hfield hb
    (0 + (Frame.wholes before).length) (after.map Frame.whole).flatten
  refine ⟨e, he, ?_⟩
  have hscan := fromOffset_wholes hbefore 0
    ((Frame.whole r).set i b ++ (after.map Frame.whole).flatten)
  rw [fromOffset_of_read_fault hread, List.append_nil, Nat.zero_add] at hscan
  rw [flatten_set hi, htake, Frame.zip_starts_whole]
  exact hscan

/-- The scan through the buffer finds a damaged byte in the same place: the records before the
frame, one error, and then nothing more. -/
theorem RecordStream.exists_scan_set {rs : List Record} {front back : List Bytes} {frame : Bytes}
    (hframes : rs.mapM Frame.encode = .ok (front ++ frame :: back)) {i : Nat} {b : UInt8}
    (hi : i < frame.length) (hfield : i < 7 ∨ Frame.headerSize ≤ i) (hb : frame[i]? ≠ some b)
    {σ : Type} [ByteStore σ] {source : σ} (hsource : ByteStore.Reads source
      ((front ++ frame :: back).flatten.set (front.flatten.length + i) b)) :
    ∃ s e, e.IsDamage ∧ scan source =
        (s, ⟨(Frame.starts 0 front).zip (rs.take front.length), front.flatten.length, some e⟩) ∧
      s.position = front.flatten.length ∧ s.next = (s, none) := by
  obtain ⟨e, he, hjournal⟩ := Scan.exists_ofJournal_set hframes hi hfield hb
  obtain ⟨s, hs, hend⟩ := scan_of_reads hsource
  rw [hjournal] at hs hend
  exact ⟨s, e, he, hs, hend.position, hend.next⟩

theorem RecordStream.exists_scan_set_delete :
    ∃ frame : Bytes, [Record.delete 1].mapM Frame.encode = .ok [frame] ∧ 6 < frame.length ∧
      frame[6]? ≠ some 4 ∧ ∃ s e, e.IsDamage ∧
        scan (Memory.mk (frame.set 6 4)) = (s, ⟨[], 0, some e⟩) ∧ s.position = 0 ∧
          s.next = (s, none) := by
  let frame := Frame.whole (.delete 1)
  have hr : ∀ r ∈ [Record.delete 1], r.Framable := by
    intro r hr
    rw [List.mem_singleton.mp hr]
    exact ⟨by decide, by decide⟩
  have hframes : [Record.delete 1].mapM Frame.encode = .ok ([] ++ frame :: []) :=
    Frame.mapM_encode_eq_ok_iff.mpr ⟨hr, rfl⟩
  have hlength : 6 < frame.length := by
    rw [Frame.length_whole, Frame.Announced.frameSize, Frame.headerSize]
    omega
  have hkind : frame[6]? ≠ some 4 := by decide
  have hmemory : ByteStore.Reads (Memory.mk (frame.set 6 4))
      (([] ++ frame :: []).flatten.set (([] : List Bytes).flatten.length + 6) 4) := by
    rw [flatten_set hlength]
    have hreads := Memory.reads (frame.set 6 4)
    rwa [← List.append_nil (frame.set 6 4)] at hreads
  exact ⟨frame, hframes, hlength, hkind,
    exists_scan_set hframes hlength (Or.inl (by decide)) hkind hmemory⟩

end Segments
