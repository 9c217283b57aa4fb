import Segments.Proofs.Stored

/-!
# Cut logs of the attribute index

A log of changes is read back, and a log that was cut at any byte is read back up to the last whole
change. So the index that is left of a log holds only what was put there. `Logs` says that a log has
the changes that made its index and nothing else; what opening and writing leave has this property,
and such a log opens to the same index again.
-/

namespace Segments

namespace IndexChange

/-- Whether the segment number of a change can be written. -/
def Writable : IndexChange → Prop
  | put segment _ _ => segment < Bytes.capacity 8
  | removeSegment segment => segment < Bytes.capacity 8

/-- A change of the kind can be written. -/
theorem Allowed.writable {P : SegmentId → AttributeId → Prop}
    (hP : ∀ id x, P id x → id < Bytes.capacity 8) {c : IndexChange} (h : c.Allowed P) :
    c.Writable := by
  cases c with
  | put segment id value => exact hP segment id h
  | removeSegment segment => exact h

/-- All bodies are equally long. -/
@[simp] theorem length_body (c : IndexChange) : c.body.length = bodySize := by
  cases c <;> simp [body, bodySize]

/-- All changes are encoded in equally many bytes. -/
@[simp] theorem length_encode (c : IndexChange) : c.encode.length = size := by
  simp [encode, bodySize, size]

/-- A value is read back from its bits. -/
theorem toInt64_ofNat_toNat (v : AttributeValue) :
    (UInt64.ofNat v.toUInt64.toNat).toInt64 = v := by
  simp

/-- A number that can be written is read back. -/
theorem ofLittleEndian_of_lt {width n : Nat} (h : n < Bytes.capacity width) :
    Bytes.ofLittleEndian (Bytes.littleEndian width n) = n := by
  rw [Bytes.ofLittleEndian_littleEndian, Nat.mod_eq_of_lt h]

/-- A body is read back. -/
theorem ofBody_body {c : IndexChange} (h : c.Writable) : ofBody c.body = .ok c := by
  cases c with
  | put segment id value =>
    have hsegment : Bytes.ofLittleEndian (Bytes.littleEndian 8 segment) = segment :=
      ofLittleEndian_of_lt h
    have hvalue : Bytes.ofLittleEndian (Bytes.littleEndian 8 value.toUInt64.toNat) =
        value.toUInt64.toNat := ofLittleEndian_of_lt value.toUInt64.toNat_lt
    have hkind : (body (.put segment id value)).take 1 = [1] := rfl
    have h1 : ((body (.put segment id value)).drop 1).take 8 = Bytes.littleEndian 8 segment := by
      simp [body]
    have h2 : ((body (.put segment id value)).drop 9).take 16 = id.toBytes := by
      simp [body]
    have h3 : ((body (.put segment id value)).drop 25).take 8 =
        Bytes.littleEndian 8 value.toUInt64.toNat := by
      have hfront : (1 :: Bytes.littleEndian 8 segment ++ id.toBytes).length = 25 := by simp
      rw [body, ← hfront, List.drop_left, List.take_of_length_le (by simp)]
    simp only [ofBody, hkind, h1, h2, h3, hsegment, hvalue, AttributeId.ofBytes?_toBytes,
      toInt64_ofNat_toNat]
    rfl
  | removeSegment segment =>
    have hsegment : Bytes.ofLittleEndian (Bytes.littleEndian 8 segment) = segment :=
      ofLittleEndian_of_lt h
    have hkind : (body (.removeSegment segment)).take 1 = [2] := rfl
    have h1 : ((body (.removeSegment segment)).drop 1).take 8 = Bytes.littleEndian 8 segment := by
      simp [body]
    simp only [ofBody, hkind, h1, hsegment]
    rfl

/-- A change is read back. -/
theorem decode_encode {c : IndexChange} (h : c.Writable) : decode c.encode = .ok c := by
  have hbody : c.encode.take bodySize = c.body := by
    rw [encode, ← length_body c, List.take_left]
  have hsum : c.encode.drop bodySize =
      Bytes.littleEndian 4 (Checksum.crc32 c.body).toNat := by
    rw [encode, ← length_body c, List.drop_left]
  have hcrc : Bytes.ofLittleEndian (Bytes.littleEndian 4 (Checksum.crc32 c.body).toNat) =
      (Checksum.crc32 c.body).toNat := ofLittleEndian_of_lt (Checksum.crc32 c.body).toNat_lt
  simp only [decode, hbody, hsum, hcrc, UInt32.ofNat_toNat, ↓reduceIte, ofBody_body h]

/-- Whole changes with less than another one after them are read back. -/
theorem decodeAll_flatMap {changes : List IndexChange} (h : ∀ c ∈ changes, c.Writable)
    {rest : Bytes} (hrest : rest.length < size) :
    decodeAll (changes.flatMap encode ++ rest) = .ok changes := by
  induction changes with
  | nil =>
    rw [decodeAll]
    split
    · rfl
    · next hsome =>
      rw [List.flatMap_nil, List.nil_append, Bytes.takeExactly_eq_none_iff.mpr hrest] at hsome
      cases hsome
  | cons c changes ih =>
    have hfront : Bytes.takeExactly size ((c :: changes).flatMap encode ++ rest) =
        some (c.encode, changes.flatMap encode ++ rest) := by
      rw [List.flatMap_cons, List.append_assoc]
      exact Bytes.takeExactly_eq_some_iff.mpr ⟨rfl, length_encode c⟩
    rw [decodeAll]
    split
    · next hnone =>
      rw [hfront] at hnone
      cases hnone
    · next front rest' hsome =>
      rw [hfront] at hsome
      cases hsome
      simp only [decode_encode (h c List.mem_cons_self),
        ih fun c' hc' => h c' (List.mem_cons_of_mem _ hc')]

/-- What a cut leaves of a log: whole changes, and less than another one. -/
theorem exists_whole_of_cut {changes : List IndexChange} {bytes : Bytes}
    (h : bytes <+: changes.flatMap encode) :
    ∃ kept rest, bytes = kept.flatMap encode ++ rest ∧ kept <+: changes ∧ rest.length < size := by
  induction changes generalizing bytes with
  | nil =>
    obtain rfl := List.prefix_nil.mp h
    exact ⟨[], [], rfl, List.nil_prefix, by decide⟩
  | cons c changes ih =>
    rw [List.flatMap_cons] at h
    by_cases hlen : bytes.length < size
    · exact ⟨[], bytes, rfl, List.nil_prefix, hlen⟩
    · have hlong : c.encode.length ≤ bytes.length := by
        rw [length_encode]
        omega
      obtain ⟨more, rfl⟩ := List.prefix_of_prefix_length_le (List.prefix_append _ _) h hlong
      obtain ⟨kept, rest, rfl, hkept, hrest⟩ := ih ((List.prefix_append_right_inj _).mp h)
      refine ⟨c :: kept, rest, ?_, (List.prefix_cons_inj c).mpr hkept, hrest⟩
      rw [List.flatMap_cons, List.append_assoc]

variable {log more : Bytes} {c : IndexChange} {changes others : List IndexChange}

/-- Nothing is found where less than a change is left. -/
theorem decodeAll_eq_nil_iff : decodeAll log = .ok [] ↔ log.length < size := by
  rw [← Bytes.takeExactly_eq_none_iff, decodeAll]
  split
  · next hnone => simp [hnone]
  · next hsome =>
    rw [hsome]
    constructor
    · intro h
      split at h
      · cases h
      · split at h <;> cases h
    · intro h
      cases h

/-- A log that is read has its first change in front and the others behind. -/
theorem decodeAll_eq_cons_iff : decodeAll log = .ok (c :: changes) ↔
    ∃ front rest, log = front ++ rest ∧ front.length = size ∧ decode front = .ok c ∧
      decodeAll rest = .ok changes := by
  constructor
  · intro h
    rw [decodeAll] at h
    split at h
    · cases h
    next front rest hsome =>
    obtain ⟨hlog, hlength⟩ := Bytes.takeExactly_eq_some_iff.mp hsome
    split at h
    · cases h
    next c' hc =>
    split at h <;> cases h
    next hrest => exact ⟨front, rest, hlog, hlength, hc, hrest⟩
  · rintro ⟨front, rest, hlog, hlength, hc, hrest⟩
    have hsome := Bytes.takeExactly_eq_some_iff.mpr ⟨hlog, hlength⟩
    rw [decodeAll]
    split
    · next hnone => rw [hsome] at hnone; cases hnone
    · next front' rest' hsome' =>
      rw [hsome] at hsome'
      cases hsome'
      simp only [hc, hrest]

/-- The changes of a log are as many as are whole. -/
theorem length_of_decodeAll (h : decodeAll log = .ok changes) :
    changes.length = log.length / size := by
  induction changes generalizing log with
  | nil => exact (Nat.div_eq_of_lt (decodeAll_eq_nil_iff.mp h)).symm
  | cons c changes ih =>
    obtain ⟨front, rest, rfl, hlength, -, hrest⟩ := decodeAll_eq_cons_iff.mp h
    rw [List.length_cons, ih hrest, List.length_append, hlength,
      Nat.add_div_left _ (show 0 < size by decide)]

/-- A log that was cut at any byte has the changes that are still whole. -/
theorem decodeAll_take (h : decodeAll log = .ok changes) (n : Nat) :
    decodeAll (log.take n) = .ok (changes.take (n / size)) := by
  induction changes generalizing log n with
  | nil =>
    have hshort := decodeAll_eq_nil_iff.mp h
    rw [List.take_nil, decodeAll_eq_nil_iff]
    exact Nat.lt_of_le_of_lt (List.length_take_le' n log) hshort
  | cons c changes ih =>
    obtain ⟨front, rest, rfl, hlength, hc, hrest⟩ := decodeAll_eq_cons_iff.mp h
    by_cases hn : n < size
    · rw [Nat.div_eq_of_lt hn, List.take_zero, decodeAll_eq_nil_iff]
      exact Nat.lt_of_le_of_lt (List.length_take_le n _) hn
    · obtain ⟨m, rfl⟩ := Nat.exists_eq_add_of_le (Nat.not_lt.mp hn)
      have hcut : (front ++ rest).take (size + m) = front ++ rest.take m := by
        rw [← hlength, List.take_length_add_append]
      rw [hcut, Nat.add_div_left _ (show 0 < size by decide), List.take_succ_cons]
      exact decodeAll_eq_cons_iff.mpr ⟨front, rest.take m, rfl, hlength, hc, ih hrest m⟩

/-- Changes behind whole ones are read after them. -/
theorem decodeAll_append (h : decodeAll log = .ok changes)
    (hwhole : log.length = size * changes.length) (hmore : decodeAll more = .ok others) :
    decodeAll (log ++ more) = .ok (changes ++ others) := by
  induction changes generalizing log with
  | nil =>
    obtain rfl := List.length_eq_zero_iff.mp hwhole
    exact hmore
  | cons c changes ih =>
    obtain ⟨front, rest, rfl, hlength, hc, hrest⟩ := decodeAll_eq_cons_iff.mp h
    have hwhole' : rest.length = size * changes.length := by
      rw [List.length_append, hlength, List.length_cons, Nat.mul_succ, Nat.add_comm] at hwhole
      exact Nat.add_right_cancel hwhole
    rw [List.append_assoc]
    exact decodeAll_eq_cons_iff.mpr ⟨front, rest ++ more, rfl, hlength, hc, ih hrest hwhole'⟩

end IndexChange

namespace AttributeIndex

/-- Erasing a segment without values erases nothing. -/
theorem removeSegment_eq_self {index : AttributeIndex} {segment : SegmentId}
    (h : index.containsSegment segment = false) : index.removeSegment segment = index := by
  obtain ⟨⟨entries, nodup⟩⟩ := index
  have hkept : (entries.filter fun e => decide (e.1.1 ≠ segment)) = entries := by
    refine List.filter_eq_self.mpr fun e he => ?_
    have hother := List.any_eq_false.mp h e.1 (List.mem_map_of_mem he)
    simpa using hother
  simp only [removeSegment, Table.filter, hkept]

end AttributeIndex

namespace IndexLog

/-- A log has the changes that made its index, and nothing behind them. -/
structure Logs (l : IndexLog) (changes : List IndexChange) : Prop where
  /-- They are read back. -/
  decodes : IndexChange.decodeAll l.log = .ok changes
  /-- All bytes are theirs. -/
  whole : l.log.length = IndexChange.size * changes.length
  /-- They made the index. -/
  index : l.index = changes.foldl IndexChange.apply .empty

variable {l : IndexLog} {changes : List IndexChange}

/-- An empty log has no changes. -/
theorem logs_empty : empty.Logs [] :=
  ⟨IndexChange.decodeAll_eq_nil_iff.mpr (by decide), rfl, rfl⟩

/-- Whole changes of any bytes are those of a log. -/
theorem logs_of_decodeAll {bytes : Bytes} (h : IndexChange.decodeAll bytes = .ok changes) :
    Logs ⟨bytes.take (IndexChange.size * changes.length),
      changes.foldl IndexChange.apply .empty⟩ changes where
  decodes := by
    rw [IndexChange.decodeAll_take h,
      Nat.mul_div_cancel_left _ (show 0 < IndexChange.size by decide), List.take_length]
  whole := by
    rw [List.length_take_of_le]
    rw [IndexChange.length_of_decodeAll h]
    exact Nat.mul_div_le _ _
  index := rfl

/-- A log that opens has the changes that were read. -/
theorem exists_logs_of_openLog {bytes : Bytes} {events : List Event}
    (h : openLog bytes = .ok (l, events)) : ∃ changes, l.Logs changes := by
  rw [openLog] at h
  split at h
  · cases h
  next changes hdecode =>
  obtain ⟨rfl, -⟩ := Prod.mk.inj (Except.ok.inj h)
  exact ⟨changes, logs_of_decodeAll hdecode⟩

namespace Logs

/-- Changes that are written stand behind the others. -/
theorem write (h : l.Logs changes) {more : List IndexChange} (hmore : ∀ c ∈ more, c.Writable) :
    (l.write more).Logs (changes ++ more) where
  decodes := by
    have hdecode : IndexChange.decodeAll (more.flatMap IndexChange.encode ++ []) = .ok more :=
      IndexChange.decodeAll_flatMap hmore (by decide)
    rw [List.append_nil] at hdecode
    exact IndexChange.decodeAll_append h.decodes h.whole hdecode
  whole := by
    have hencoded : (more.flatMap IndexChange.encode).length = IndexChange.size * more.length := by
      rw [List.length_flatMap, List.map_congr_left fun c _ => IndexChange.length_encode c,
        List.map_const', List.sum_replicate_nat, Nat.mul_comm]
    rw [IndexLog.write, List.length_append, h.whole, hencoded, List.length_append, Nat.mul_add]
  index := by rw [IndexLog.write, h.index, List.foldl_append]

/-- Setting values writes changes that stand behind the others. -/
theorem put (h : l.Logs changes) {segment : SegmentId} (hs : segment < Bytes.capacity 8)
    (values : AttributeValues) : ∃ more, (l.put segment values).Logs (changes ++ more) := by
  refine ⟨_, h.write fun c hc => ?_⟩
  obtain ⟨v, -, rfl⟩ := List.mem_map.mp hc
  exact hs

/-- Nothing is written for a segment without values, and there is nothing to erase then. -/
theorem removeSegment (h : l.Logs changes) {segment : SegmentId} (hs : segment < Bytes.capacity 8) :
    (∃ more, (l.removeSegment segment).Logs (changes ++ more)) ∧
      (l.removeSegment segment).index = l.index.removeSegment segment := by
  unfold IndexLog.removeSegment
  cases hc : l.index.containsSegment segment with
  | true =>
    refine ⟨⟨_, h.write fun c hc => ?_⟩, rfl⟩
    obtain rfl := List.mem_singleton.mp hc
    exact hs
  | false =>
    exact ⟨⟨[], by rwa [List.append_nil]⟩, (AttributeIndex.removeSegment_eq_self hc).symm⟩

/-- A log that was cut at any byte opens to the index of its first changes, and is cut behind
them. -/
theorem openLog_take (h : l.Logs changes) (n : Nat) :
    ∃ l' events, IndexLog.openLog (l.log.take n) = .ok (l', events) ∧
      l'.Logs (changes.take (n / IndexChange.size)) ∧
      l'.log = l.log.take (IndexChange.size * (n / IndexChange.size)) := by
  have hdecode := IndexChange.decodeAll_take h.decodes n
  refine ⟨_, _, by simp only [IndexLog.openLog, hdecode]; rfl, logs_of_decodeAll hdecode, ?_⟩
  have hle := Nat.mul_div_le n IndexChange.size
  have hwhole := h.whole
  rw [List.take_take, List.take_eq_take_iff, List.length_take, hwhole]
  rcases Nat.le_total (n / IndexChange.size) changes.length with hin | hout
  · rw [Nat.min_eq_left hin, Nat.min_eq_left hle]
  · have hall := Nat.mul_le_mul_left IndexChange.size hout
    rw [Nat.min_eq_right hout]
    omega

/-- A log opens to what it was, without a warning. -/
theorem openLog (h : l.Logs changes) : ∃ events, IndexLog.openLog l.log = .ok (l, events) ∧
    ∀ e ∈ events, e.level = .debug := by
  have hlog : l.log.take (IndexChange.size * changes.length) = l.log := by
    rw [← h.whole, List.take_length]
  have htorn : ¬ IndexChange.size * changes.length < l.log.length := by
    rw [h.whole]
    exact Nat.lt_irrefl _
  refine ⟨_, by simp only [IndexLog.openLog, h.decodes, hlog, ← h.index, htorn, if_false]; rfl, ?_⟩
  intro e he
  rw [List.mem_singleton.mp he]

end Logs

end IndexLog

/-- A log that was cut at any byte opens to an index that holds only what was put there. -/
theorem AttributeStore.Made.openLog {P : SegmentId → AttributeId → Prop} {s : AttributeStore}
    (h : s.Made P) (hP : ∀ id x, P id x → id < Bytes.capacity 8) {l : IndexLog}
    (hl : s.keeper = .logged l) {bytes : Bytes} (hb : bytes <+: l.log) :
    ∃ l' events, IndexLog.openLog bytes = .ok (l', events) ∧
      ∀ id x v, l'.index.get? id x = some v → P id x := by
  obtain ⟨changes, hall, -, hlog⟩ := h
  rw [hlog l hl] at hb
  obtain ⟨kept, rest, rfl, hkept, hrest⟩ := IndexChange.exists_whole_of_cut hb
  have hin : ∀ c ∈ kept, c.Allowed P := fun c hc => hall c (hkept.subset hc)
  have hdecode := IndexChange.decodeAll_flatMap
    (fun c hc => (hin c hc).writable hP) hrest
  simp only [IndexLog.openLog, hdecode]
  exact ⟨_, _, rfl, AttributeStore.get?_foldl_apply hin .empty nofun⟩

end Segments
