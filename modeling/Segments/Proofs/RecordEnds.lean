import Segments.Proofs.RoundTrip

/-!
# Where records end

The ends of the records of a journal are worked out from where the later records start, and the
last one from the size of the journal. So they are the ends of the frames as long as nothing is
behind the last frame; the torn bytes of a write that was cut short are counted as part of it. A
cut at any of them keeps the records up to it nevertheless, as torn bytes are not read.
-/

namespace Segments

namespace Frame

/-- Where each of several frames ends that stand one after another from an offset on. -/
def ends : Nat → List Bytes → List Nat
  | _, [] => []
  | offset, frame :: frames => (offset + frame.length) :: ends (offset + frame.length) frames

/-- Each frame ends where the next one starts, and the last one where all of them end. -/
theorem ends_cons (offset : Nat) (frame : Bytes) (frames : List Bytes) :
    ends offset (frame :: frames) = starts (offset + frame.length) frames ++
      [offset + (frame :: frames).flatten.length] := by
  induction frames generalizing offset frame with
  | nil => simp [ends, starts]
  | cons next frames ih =>
    rw [ends, ih, starts]
    simp only [List.flatten_cons, List.length_append, Nat.add_assoc, List.cons_append]

@[simp] theorem length_starts (offset : Nat) (frames : List Bytes) :
    (starts offset frames).length = frames.length := by
  induction frames generalizing offset with
  | nil => rfl
  | cons frame frames ih => rw [starts, List.length_cons, ih, List.length_cons]

/-- The end of a frame is behind all frames up to it. -/
theorem getElem?_ends {offset k e : Nat} {frames : List Bytes} :
    (ends offset frames)[k]? = some e ↔
      k < frames.length ∧ e = offset + (frames.take (k + 1)).flatten.length := by
  induction frames generalizing offset k with
  | nil => simp [ends]
  | cons frame frames ih =>
    rw [ends]
    cases k with
    | zero => simp [eq_comm]
    | succ k => simp [ih, Nat.add_assoc]

/-- Whole frames in front of a journal are kept by a cut at the end of one of them. -/
theorem take_flatten {k : Nat} (frames : List Bytes) (rest : Bytes) :
    (frames.flatten ++ rest).take (frames.take k).flatten.length = (frames.take k).flatten := by
  have hsplit : frames.flatten = (frames.take k).flatten ++ (frames.drop k).flatten := by
    rw [← List.flatten_append, List.take_append_drop]
  rw [hsplit, List.append_assoc, List.take_left]

end Frame

theorem Scan.map_fst_placed (offset : Nat) (rs : List Record) :
    (placed offset rs).map Prod.fst = Frame.starts offset (rs.map Frame.whole) := by
  induction rs generalizing offset with
  | nil => rfl
  | cons r rs ih =>
    rw [placed, List.map_cons, ih]
    rfl

variable {rs : List Record} {rest : Bytes}

/-- What is read from a journal of whole frames and torn bytes. -/
theorem Scan.all_wholes (hrs : ∀ r ∈ rs, r.Framable) (hrest : Frame.Torn rest) :
    (ofJournal (Frame.wholes rs ++ rest)).all =
      .ok ((Frame.starts 0 (rs.map Frame.whole)).zip rs) := by
  rw [ofJournal_wholes hrs hrest, Frame.zip_starts_whole]
  rfl

/-- The ends that are told: where the later frames start, and where the journal ends. -/
theorem recordEnds_cons {r : Record} (hrs : ∀ r' ∈ r :: rs, r'.Framable)
    (hrest : Frame.Torn rest) : recordEnds (Frame.wholes (r :: rs) ++ rest) =
      .ok (Frame.starts (Frame.whole r).length (rs.map Frame.whole) ++
        [(Frame.wholes (r :: rs) ++ rest).length]) := by
  rw [recordEnds, Scan.ofJournal_wholes hrs hrest, ← Scan.map_fst_placed, Scan.placed, Nat.zero_add]
  rfl

/-- A cut at the end of a frame keeps the frames up to it, and their records are read. -/
theorem Scan.all_take_ends (hrs : ∀ r ∈ rs, r.Framable) {k e : Nat}
    (he : (Frame.ends 0 (rs.map Frame.whole))[k]? = some e) :
    (ofJournal ((Frame.wholes rs ++ rest).take e)).all =
      .ok ((Frame.starts 0 ((rs.map Frame.whole).take (k + 1))).zip (rs.take (k + 1))) := by
  obtain ⟨-, rfl⟩ := Frame.getElem?_ends.mp he
  have hkept : (Frame.wholes rs ++ rest).take (((rs.map Frame.whole).take (k + 1)).flatten.length) =
      Frame.wholes (rs.take (k + 1)) := by
    rw [Frame.wholes, List.flatMap_def, Frame.take_flatten, ← List.map_take]
    rfl
  have hframable : ∀ r ∈ rs.take (k + 1), r.Framable := fun r hr =>
    hrs r (List.mem_of_mem_take hr)
  have hread := all_wholes hframable Frame.torn_nil
  rw [List.append_nil] at hread
  rw [Nat.zero_add, hkept, hread, List.map_take]

/-- A cut at the size of the journal keeps all of it. -/
theorem Scan.all_take_length (hrs : ∀ r ∈ rs, r.Framable) (hrest : Frame.Torn rest) {k : Nat}
    (hk : rs.length ≤ k) :
    (ofJournal ((Frame.wholes rs ++ rest).take (Frame.wholes rs ++ rest).length)).all =
      .ok ((Frame.starts 0 ((rs.map Frame.whole).take k)).zip (rs.take k)) := by
  have hframes : (rs.map Frame.whole).length ≤ k := by rwa [List.length_map]
  rw [List.take_length, List.take_of_length_le hk, List.take_of_length_le hframes,
    all_wholes hrs hrest]

/-- The ends that are told for a journal of whole frames and torn bytes are the ends of the frames,
but the last one is the size of the journal. They are the ends of the frames if and only if nothing
is behind the last one or there is none. A cut at the end of a frame keeps just the frames up to it,
and where the journal is cut at an end that is told, just the records up to it are read. -/
theorem recordEnds_wholes (hrs : ∀ r ∈ rs, r.Framable) (hrest : Frame.Torn rest) :
    ∃ frames told, rs.mapM Frame.encode = .ok frames ∧
      recordEnds (frames.flatten ++ rest) = .ok told ∧
      told = (Frame.ends 0 frames).dropLast ++
        (if rs = [] then [] else [(frames.flatten ++ rest).length]) ∧
      (told = Frame.ends 0 frames ↔ rest = [] ∨ rs = []) ∧
      (∀ k e, (Frame.ends 0 frames)[k]? = some e →
        (frames.flatten ++ rest).take e = (frames.take (k + 1)).flatten) ∧
      ∀ k e, told[k]? = some e → (Scan.ofJournal ((frames.flatten ++ rest).take e)).all =
        .ok ((Frame.starts 0 (frames.take (k + 1))).zip (rs.take (k + 1))) := by
  have hkept : ∀ k e, (Frame.ends 0 (rs.map Frame.whole))[k]? = some e →
      ((rs.map Frame.whole).flatten ++ rest).take e =
        ((rs.map Frame.whole).take (k + 1)).flatten := by
    intro k e he
    obtain ⟨-, rfl⟩ := Frame.getElem?_ends.mp he
    rw [Nat.zero_add, Frame.take_flatten]
  have hframes := Frame.mapM_encode_eq_ok_iff.mpr ⟨hrs, rfl⟩
  cases rs with
  | nil =>
    have hnone : recordEnds ([].flatten ++ rest) = .ok [] := by
      rw [recordEnds, List.flatten_nil, ← Frame.wholes_nil, Scan.ofJournal_wholes hrs hrest]
      rfl
    exact ⟨[], [], hframes, hnone, rfl, by simp [Frame.ends], hkept, nofun⟩
  | cons r rs =>
    have hends : Frame.ends 0 ((r :: rs).map Frame.whole) =
        Frame.starts (Frame.whole r).length (rs.map Frame.whole) ++
          [(Frame.wholes (r :: rs)).length] := by
      rw [List.map_cons, Frame.ends_cons, Nat.zero_add, Nat.zero_add]
      rfl
    refine ⟨_, _, hframes, recordEnds_cons hrs hrest, ?_, ?_, hkept, ?_⟩
    · rw [hends, List.dropLast_concat, if_neg (List.cons_ne_nil r rs)]
      rfl
    · rw [hends, List.append_cancel_left_eq, List.length_append]
      simp
    · intro k e he
      by_cases hk : k < (Frame.starts (Frame.whole r).length (rs.map Frame.whole)).length
      · rw [List.getElem?_append_left hk] at he
        refine Scan.all_take_ends hrs ?_
        rw [hends, List.getElem?_append_left hk, he]
      · -- The last end that is told is the size of the journal.
        rw [List.getElem?_append_right (Nat.not_lt.mp hk), List.getElem?_singleton] at he
        split at he
        next hlast =>
          obtain rfl := Option.some.inj he
          rw [Frame.length_starts, List.length_map] at hk hlast
          exact Scan.all_take_length hrs hrest (by rw [List.length_cons]; omega)
        · cases he

/-- Of two records with one byte behind them the wrong end of the last one is told. -/
theorem recordEnds_wholes_pair :
    ∃ frames told, [Record.create 1 "a" [], .delete 1].mapM Frame.encode = .ok frames ∧
      recordEnds (frames.flatten ++ [0x53]) = .ok told ∧ told ≠ Frame.ends 0 frames ∧
      ∀ k e, told[k]? = some e → (Scan.ofJournal ((frames.flatten ++ [0x53]).take e)).all =
        .ok ((Frame.starts 0 (frames.take (k + 1))).zip
          ([Record.create 1 "a" [], .delete 1].take (k + 1))) := by
  have hrs : ∀ r ∈ [Record.create 1 "a" [], .delete 1], r.Framable := by
    intro r hr
    simp only [List.mem_cons, List.not_mem_nil, or_false] at hr
    rcases hr with rfl | rfl
    · exact ⟨by decide, by decide⟩
    · exact ⟨by decide, by decide⟩
  obtain ⟨frames, told, hframes, htold, -, hsame, -, hread⟩ :=
    recordEnds_wholes hrs Frame.torn_singleton
  refine ⟨frames, told, hframes, htold, ?_, hread⟩
  intro h
  rcases hsame.mp h with hempty | hempty
  · cases hempty
  · cases hempty

/-- The frame of a record ends after 62 bytes, but a byte more is told if there is one. -/
theorem recordEnds_torn :
    ∃ frame, Frame.encode (.create 1 "a" []) = .ok frame ∧ Frame.Torn [0x53] ∧
      Frame.ends 0 [frame] = [62] ∧ recordEnds ([frame].flatten ++ [0x53]) = .ok [63] := by
  have hframable : (Record.create 1 "a" []).Framable := ⟨by decide, by decide⟩
  have hlen : (Frame.whole (.create 1 "a" [])).length = 62 := by decide
  have htold := recordEnds_cons (List.forall_mem_singleton.mpr hframable) Frame.torn_singleton
  refine ⟨_, Frame.encode_eq_ok_iff.mpr ⟨hframable, rfl⟩, Frame.torn_singleton, ?_,
    htold.trans ?_⟩
  · rw [Frame.ends, hlen]
    rfl
  · rw [List.length_append, Frame.wholes_singleton, hlen]
    rfl

end Segments
