import Segments.Proofs.Corruption
import Segments.Proofs.Locality
import Segments.Proofs.Stream

/-!
# A journal that is cut anywhere

Of a journal that is cut, a scan finds the records whose frames end before the cut. The frame that
the cut goes through is torn, in whatever part of it the cut is, and what lies behind the cut has
no part in what is read before it. So a fault is reported only where the whole journal has it too.
-/

namespace Segments

namespace Bytes

/-- What is consumed of a cut byte string is consumed of the whole one. -/
theorem takeExactly_of_take {k n : Nat} {bytes front rest : Bytes}
    (h : takeExactly k (bytes.take n) = some (front, rest)) :
    takeExactly k bytes = some (front, rest ++ bytes.drop n) := by
  have hmore := Cbor.isLocal_takeExactly k h (bytes.drop n)
  rwa [List.take_append_drop] at hmore

/-- What lies before the cut is consumed of a cut byte string too. -/
theorem exists_takeExactly_take {k n : Nat} {bytes front rest : Bytes}
    (h : takeExactly k bytes = some (front, rest)) (hk : k ≤ n) :
    ∃ rest', takeExactly k (bytes.take n) = some (front, rest') := by
  obtain ⟨rfl, hlength⟩ := takeExactly_eq_some_iff.mp h
  refine ⟨rest.take (n - front.length), takeExactly_eq_some_iff.mpr ⟨?_, hlength⟩⟩
  rw [List.take_append, List.take_of_length_le (by omega)]

end Bytes

namespace Frame

/-- Of cut bytes a frame is torn, or the same is read as of the whole bytes. -/
theorem read_take (offset n : Nat) (bytes : Bytes) :
    read offset (bytes.take n) = .torn ∨ read offset (bytes.take n) = read offset bytes := by
  unfold read
  cases hfront : Bytes.takeExactly headerSize (bytes.take n) with
  | none => exact Or.inl rfl
  | some pair =>
    rw [Bytes.takeExactly_of_take hfront]
    dsimp only
    cases readHeader offset pair.1 with
    | error e => exact Or.inr rfl
    | ok a =>
      dsimp only
      cases hframe : Bytes.takeExactly a.frameSize (bytes.take n) with
      | none => exact Or.inl rfl
      | some whole =>
        rw [Bytes.takeExactly_of_take hframe]
        exact Or.inr rfl

/-- The parts of a record's frame at the start of bytes. -/
theorem exists_of_read {offset size : Nat} {bytes : Bytes} {r : Record}
    (h : read offset bytes = .record r size) :
    ∃ front tail a frame rest, Bytes.takeExactly headerSize bytes = some (front, tail) ∧
      readHeader offset front = .ok a ∧
      Bytes.takeExactly a.frameSize bytes = some (frame, rest) ∧ readWhole a frame = .ok r ∧
      a.frameSize = size := by
  unfold read at h
  split at h
  · cases h
  next front tail hfront =>
  split at h
  · cases h
  next a ha =>
  split at h
  · cases h
  next frame rest hframe =>
  split at h
  · cases h
  next r' hr =>
  cases h
  exact ⟨front, tail, a, frame, rest, hfront, ha, hframe, hr, rfl⟩

/-- A record is read of cut bytes exactly if its frame ends before the cut. -/
theorem read_take_of_record {offset size : Nat} {bytes : Bytes} {r : Record}
    (h : read offset bytes = .record r size) (n : Nat) :
    read offset (bytes.take n) = if size ≤ n then .record r size else .torn := by
  split
  · next hn =>
    obtain ⟨front, tail, a, frame, rest, hfront, ha, hframe, hr, rfl⟩ := exists_of_read h
    have hheader : headerSize ≤ n := by
      rw [Announced.frameSize] at hn
      omega
    obtain ⟨tail', hfront'⟩ := Bytes.exists_takeExactly_take hfront hheader
    obtain ⟨rest', hframe'⟩ := Bytes.exists_takeExactly_take hframe hn
    simp only [read, hfront', ha, hframe', hr]
  · next hn =>
    refine (read_take offset n bytes).resolve_right fun hsame => hn ?_
    exact Nat.le_trans (size_of_read (hsame.trans h)).2 (List.length_take_le n bytes)

/-- The end of the frame that starts at an offset of a journal, as its header tells it. -/
def endAt (journal : Bytes) (offset : Nat) : Nat :=
  offset + (headerSize + Bytes.ofLittleEndian ((journal.drop (offset + 7)).take 4) + checksumSize)

theorem le_endAt (journal : Bytes) (offset : Nat) : offset ≤ endAt journal offset :=
  Nat.le_add_right _ _

/-- The frame of a record ends where the next one starts. -/
theorem endAt_of_read {journal : Bytes} {offset size : Nat} {r : Record}
    (h : read offset (journal.drop offset) = .record r size) :
    endAt journal offset = offset + size := by
  obtain ⟨front, tail, a, -, -, hfront, ha, -, -, rfl⟩ := exists_of_read h
  obtain ⟨hsplit, hlength⟩ := Bytes.takeExactly_eq_some_iff.mp hfront
  have hfield : (journal.drop (offset + 7)).take 4 = (front.drop 7).take 4 := by
    rw [← List.drop_drop, hsplit, List.drop_append_of_le_length (by rw [hlength]; decide),
      List.take_append_of_le_length (by rw [List.length_drop, hlength]; decide)]
  rcases readHeader_cases offset front with ⟨m, hm⟩ | ⟨kind, hkind⟩
  · rw [ha] at hm
    cases hm
  · rw [ha, Except.ok.injEq] at hkind
    rw [endAt, hfield, hkind, Announced.frameSize]

end Frame

namespace Scan

/-- A scan from an offset on finds no record before it. -/
theorem le_of_mem_fromOffset {offset : Nat} {bytes : Bytes} {entry : Nat × Record}
    (h : entry ∈ (fromOffset offset bytes).records) : offset ≤ entry.1 := by
  induction offset, bytes using fromOffset.induct with
  | case1 offset bytes hread =>
    rw [fromOffset_of_read_torn hread] at h
    cases h
  | case2 offset bytes e hread =>
    rw [fromOffset_of_read_fault hread] at h
    cases h
  | case3 offset bytes r size hread ih =>
    rw [fromOffset_of_read_record hread] at h
    rcases List.mem_cons.mp h with rfl | hlater
    · exact Nat.le_refl _
    · exact Nat.le_trans (Nat.le_add_right _ _) (ih hlater)

/-- The scan of a journal that was cut after so many bytes, beside the scan of the whole one. -/
structure CutAt (journal : Bytes) (n : Nat) (whole cut : Scan) : Prop where
  /-- The records are those of the whole journal whose frames end before the cut. -/
  records : cut.records =
    whole.records.filter fun entry => decide (Frame.endAt journal entry.1 ≤ n)
  /-- They are the first ones, in the same order. -/
  inFront : cut.records <+: whole.records
  /-- An error is the error of the whole journal, at the same position. -/
  stop : ∀ e, cut.stop = some e → whole.stop = some e ∧ cut.position = whole.position

/-- A record whose frame ends before the cut is in front of both scans. -/
theorem CutAt.cons {journal : Bytes} {n : Nat} {whole cut : Scan} (h : CutAt journal n whole cut)
    {entry : Nat × Record} (hend : Frame.endAt journal entry.1 ≤ n) :
    CutAt journal n (whole.cons entry) (cut.cons entry) where
  records := by
    have hfilter := List.filter_cons_of_pos (a := entry) (l := whole.records)
      (p := fun entry => decide (Frame.endAt journal entry.1 ≤ n)) (decide_eq_true hend)
    exact (congrArg (List.cons entry) h.records).trans hfilter.symm
  inFront := (List.prefix_cons_inj entry).mpr h.inFront
  stop := h.stop

/-- The cut goes through the next frame, and no record ends before it. -/
theorem CutAt.torn {journal : Bytes} {n : Nat} {whole : Scan}
    (h : ∀ entry ∈ whole.records, n < Frame.endAt journal entry.1) (offset : Nat) :
    CutAt journal n whole ⟨[], offset, none⟩ where
  records := by
    rw [eq_comm, List.filter_eq_nil_iff]
    intro entry hentry
    rw [decide_eq_true_eq]
    exact Nat.not_le.mpr (h entry hentry)
  inFront := List.nil_prefix
  stop _ he := nomatch he

/-- A scan of the rest of a journal that was cut. -/
theorem cutAt_fromOffset {journal bytes : Bytes} {offset : Nat} (n : Nat)
    (hbytes : bytes = journal.drop offset) :
    CutAt journal n (fromOffset offset bytes) (fromOffset offset (bytes.take (n - offset))) := by
  -- The two scans go on together until the first frame that the cut goes through.
  induction offset, bytes using fromOffset.induct with
  | case1 offset bytes hread =>
    have hcut : Frame.read offset (bytes.take (n - offset)) = .torn :=
      (Frame.read_take offset (n - offset) bytes).elim id (·.trans hread)
    rw [fromOffset_of_read_torn hread, fromOffset_of_read_torn hcut]
    exact .torn (fun _ h => absurd h List.not_mem_nil) offset
  | case2 offset bytes e hread =>
    rw [fromOffset_of_read_fault hread]
    rcases Frame.read_take offset (n - offset) bytes with hcut | hcut
    · rw [fromOffset_of_read_torn hcut]
      exact .torn (fun _ h => absurd h List.not_mem_nil) offset
    · rw [fromOffset_of_read_fault (hcut.trans hread)]
      exact ⟨rfl, List.prefix_rfl, fun e he => ⟨he, rfl⟩⟩
  | case3 offset bytes r size hread ih =>
    have hcut := Frame.read_take_of_record hread (n - offset)
    have hend : Frame.endAt journal offset = offset + size := Frame.endAt_of_read (hbytes ▸ hread)
    have hpos : 0 < size := Nat.lt_of_lt_of_le (by decide) (Frame.size_of_read hread).1
    rw [fromOffset_of_read_record hread]
    split at hcut
    · next hsize =>
      have hrest : (bytes.take (n - offset)).drop size =
          (bytes.drop size).take (n - (offset + size)) := by
        rw [List.drop_take, Nat.sub_sub]
      rw [fromOffset_of_read_record hcut, hrest]
      exact (ih (by rw [hbytes, List.drop_drop])).cons (hend ▸ by omega)
    · next hsize =>
      rw [fromOffset_of_read_torn hcut]
      refine .torn (fun entry hentry => ?_) offset
      rcases List.mem_cons.mp hentry with rfl | hlater
      · exact hend ▸ by omega
      · have hstart := le_of_mem_fromOffset hlater
        have := Frame.le_endAt journal entry.1
        omega

/-- The end of the last frame of which a scan found the record; the beginning if it found none. -/
def lastEnd (journal : Bytes) (s : Scan) : Nat :=
  (s.records.map fun entry => Frame.endAt journal entry.1).getLastD 0

/-- A scan of the rest of a cut journal ends at the end of the last frame that it found. -/
theorem position_fromOffset {journal bytes : Bytes} {offset n : Nat}
    (hbytes : bytes = (journal.take n).drop offset) :
    (fromOffset offset bytes).position = ((fromOffset offset bytes).records.map
      fun entry => Frame.endAt journal entry.1).getLastD offset := by
  induction offset, bytes using fromOffset.induct with
  | case1 offset bytes hread =>
    rw [fromOffset_of_read_torn hread]
    rfl
  | case2 offset bytes e hread =>
    rw [fromOffset_of_read_fault hread]
    rfl
  | case3 offset bytes r size hread ih =>
    have hcut : Frame.read offset ((journal.drop offset).take (n - offset)) =
        .record r size := by
      rw [← List.drop_take, ← hbytes, hread]
    have hwhole : Frame.read offset (journal.drop offset) = .record r size := by
      rcases Frame.read_take offset (n - offset) (journal.drop offset) with htorn | hsame
      · rw [hcut] at htorn
        cases htorn
      · rw [← hsame, hcut]
    rw [fromOffset_of_read_record hread, cons, List.map_cons, List.getLastD_cons,
      Frame.endAt_of_read hwhole]
    exact ih (by rw [hbytes, List.drop_drop])

end Scan

/-- A scan of a journal that is cut anywhere finds exactly the records of the whole journal whose
frames end before the cut, and they are its first ones. It ends at the end of the last of them, and
it ends with an error only if the scan of the whole journal ends with the same error there. -/
theorem RecordStream.scan_take (journal : Bytes) (n : Nat) :
    ∃ s s' whole cut, scan (Memory.mk journal) = (s, whole) ∧
      scan (Memory.mk (journal.take n)) = (s', cut) ∧ s'.position = cut.position ∧
      cut.position = cut.lastEnd journal ∧ Scan.CutAt journal n whole cut := by
  obtain ⟨s, hs, -⟩ := scan_of_reads (Memory.reads journal)
  obtain ⟨s', hs', hend⟩ := scan_of_reads (Memory.reads (journal.take n))
  exact ⟨s, s', _, _, hs, hs', hend.position, Scan.position_fromOffset rfl,
    Scan.cutAt_fromOffset n rfl⟩

end Segments
