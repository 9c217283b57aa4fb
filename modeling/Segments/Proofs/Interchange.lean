import Segments.Proofs.Stream

/-!
# Stores that stand for each other

A file whose store counts the bytes it holds answers every read as those bytes in memory do, and
every call leaves it such a file. So a store over a file, closed and opened again at any moments,
answers a list of calls as a store in memory does, from whatever content both start. What is read
from either is told by the bytes that the calls have left: what was appended is found where it was
put until a cut takes some of it away.
-/

namespace Segments

namespace ByteStore

/-- What is done with a store that outlives being closed. -/
inductive Visit where
  /-- It is called. -/
  | call (c : Call)
  /-- It is closed and opened again. -/
  | reopen
  deriving DecidableEq, Repr

/-- The call that is made, if one is. -/
def Visit.call? : Visit → Option Call
  | .call c => some c
  | .reopen => none

/-- The bytes held after a call: an append adds some, a cut drops what is behind it. -/
def Call.effect : Call → Bytes → Bytes
  | .append data, bytes => bytes ++ data
  | .truncate newSize, bytes => bytes.take newSize
  | _, bytes => bytes

/-- The end of a range as a number of 64 bits, where a sum that is too large stops at the largest
number. -/
def rangeEnd (offset len : Nat) : Nat := min (offset + len) (Bytes.capacity 8 - 1)

/-- A beginning of what is held that no cut reaches is there after all calls. -/
theorem isPrefix_foldl_effect {front bytes : Bytes} (h : front <+: bytes) {calls : List Call}
    (hcuts : ∀ newSize, .truncate newSize ∈ calls → front.length ≤ newSize) :
    front <+: calls.foldl (fun bytes c => c.effect bytes) bytes := by
  induction calls generalizing bytes with
  | nil => exact h
  | cons c calls ih =>
    refine ih ?_ fun newSize hmem => hcuts newSize (List.mem_cons_of_mem c hmem)
    cases c with
    | append data => exact h.trans (List.prefix_append bytes data)
    | truncate newSize => exact List.prefix_take_iff.mpr ⟨h, hcuts newSize List.mem_cons_self⟩
    | _ => exact h

variable {σ : Type} [ByteStore σ] {s : σ} {bytes : Bytes}

/-- The answers to the calls among a list of visits, and the store after them. -/
def visitAll (reopen : σ → σ) (s : σ) : List Visit → σ × List (Except StorageError Reply)
  | [] => (s, [])
  | .reopen :: visits => visitAll reopen (reopen s) visits
  | .call c :: visits =>
    let (s', reply) := run s c
    let (s'', replies) := visitAll reopen s' visits
    (s'', reply :: replies)

/-- The call at a position is answered by the store that the calls before it have left. -/
theorem getElem?_runAll (s : σ) (calls : List Call) (i : Nat) : (runAll s calls).2[i]? =
    calls[i]?.map fun c => (run (runAll s (calls.take i)).1 c).2 := by
  induction calls generalizing s i with
  | nil => rfl
  | cons c calls ih =>
    cases i with
    | zero => rfl
    | succ i => exact ih (run s c).1 i

theorem length_runAll (s : σ) (calls : List Call) : (runAll s calls).2.length = calls.length := by
  induction calls generalizing s with
  | nil => rfl
  | cons c calls ih => exact congrArg (· + 1) (ih (run s c).1)

theorem runAll_fst_append (s : σ) (calls more : List Call) :
    (runAll s (calls ++ more)).1 = (runAll (runAll s calls).1 more).1 := by
  induction calls generalizing s with
  | nil => rfl
  | cons c calls ih => exact ih (run s c).1

/-- A store answers each read as the bytes that it holds say. -/
structure Answers (s : σ) (bytes : Bytes) : Prop where
  /-- It holds so many bytes. -/
  size : size s = bytes.length
  /-- A range is read if it is within the bytes. -/
  readAt : ∀ offset len, readAt s offset len =
    if bytes.length < offset + len then .error (.readPastEnd offset len bytes.length)
    else .ok (bytes.extract offset (offset + len))

namespace Answers

/-- Bytes that stand behind others are read where those end. -/
theorem readAt_behind (h : Answers s bytes) {front data : Bytes} (hin : front ++ data <+: bytes) :
    ByteStore.readAt s front.length data.length = .ok data := by
  obtain ⟨rest, rfl⟩ := hin
  have hlength : ¬(front ++ data ++ rest).length < front.length + data.length := by
    simp only [List.length_append]
    omega
  rw [h.readAt, if_neg hlength, List.append_assoc, List.extract_eq_take_drop, List.drop_left,
    Nat.add_sub_cancel_left, List.take_left]

/-- A read of what is there stops at the end, and fails just from behind the end on. -/
theorem readAvailable (h : Answers s bytes) (offset max : Nat) :
    ByteStore.readAvailable s offset max =
      if bytes.length < offset then .error (.readPastEnd offset 0 bytes.length)
      else .ok (bytes.extract offset (min (offset + max) bytes.length)) := by
  rw [ByteStore.readAvailable, h.readAt, h.size]
  by_cases hpast : bytes.length < offset
  · have hnone : min (bytes.length - offset) max = 0 := by omega
    rw [if_pos hpast, hnone, Nat.add_zero, if_pos hpast]
  · have hwithin : ¬bytes.length < offset + min (bytes.length - offset) max := by omega
    have hend : offset + min (bytes.length - offset) max = min (offset + max) bytes.length := by
      omega
    rw [if_neg hpast, if_neg hwithin, hend]

/-- In numbers of 64 bits, a range is refused just if its start or its end is past the size. -/
theorem readAt_eq_error_iff (h : Answers s bytes) (hfits : bytes.length < Bytes.capacity 8 - 1)
    (offset len : Nat) : (∃ e, ByteStore.readAt s offset len = .error e) ↔
      bytes.length < offset ∨ bytes.length < rangeEnd offset len := by
  rw [h.readAt, rangeEnd]
  by_cases hpast : bytes.length < offset + len
  · rw [if_pos hpast]
    exact iff_of_true ⟨_, rfl⟩ (Or.inr (Nat.lt_min.mpr ⟨hpast, hfits⟩))
  · rw [if_neg hpast]
    refine iff_of_false (fun ⟨e, he⟩ => by cases he) ?_
    omega

end Answers

end ByteStore

namespace Memory

open ByteStore

theorem answers (m : Memory) : Answers m m.data where
  size := rfl
  readAt offset len := by
    rw [List.extract_eq_take_drop, Nat.add_sub_cancel_left]
    rfl

/-- What a call leaves in memory; a cut past the end is refused and would drop nothing. -/
theorem run_fst (m : Memory) (c : ByteStore.Call) : (run m c).1 = ⟨c.effect m.data⟩ := by
  cases c with
  | truncate newSize =>
    have hrun : (run m (.truncate newSize)).1 = (m.truncate newSize).1 := rfl
    rw [hrun, Memory.truncate, Call.effect]
    split
    · next h => rw [List.take_of_length_le (Nat.le_of_lt h)]
    · rfl
  | _ => rfl

theorem runAll_fst (m : Memory) (calls : List ByteStore.Call) :
    (runAll m calls).1 = ⟨calls.foldl (fun bytes c => c.effect bytes) m.data⟩ := by
  induction calls generalizing m with
  | nil => rfl
  | cons c calls ih =>
    have hstep : (runAll m (c :: calls)).1 = (runAll (run m c).1 calls).1 := rfl
    rw [hstep, ih, run_fst]
    rfl

/-- A block that is appended is found at the offset that was told, if no later cut is below its
end. -/
theorem stands_runAll {m : Memory} {calls : List ByteStore.Call} {i : Nat} {data : Bytes}
    (hi : calls[i]? = some (.append data)) :
    ∃ front : Bytes, (runAll m calls).2[i]? = some (.ok (.number front.length)) ∧
      ((∀ newSize, .truncate newSize ∈ calls.drop (i + 1) →
          front.length + data.length ≤ newSize) →
        front ++ data <+: (runAll m calls).1.data) := by
  let before := (runAll m (calls.take i)).1
  refine ⟨before.data, ?_, fun hcuts => ?_⟩
  · rw [getElem?_runAll, hi]
    rfl
  · obtain ⟨hlt, hget⟩ := List.getElem?_eq_some_iff.mp hi
    have hsplit : calls = calls.take i ++ .append data :: calls.drop (i + 1) := by
      rw [← hget, ← List.drop_eq_getElem_cons hlt, List.take_append_drop]
    have hafter : (runAll m calls).1 = (runAll before (.append data :: calls.drop (i + 1))).1 := by
      rw [← runAll_fst_append, ← hsplit]
    rw [hafter, runAll_fst]
    exact isPrefix_foldl_effect (List.prefix_refl (before.data ++ data)) fun newSize hmem => by
      rw [List.length_append]
      exact hcuts newSize hmem

end Memory

namespace FileStore

open ByteStore

/-- A file that is counted right is read as its bytes in memory are. -/
theorem readAt_ofContent (content : Bytes) (offset len : Nat) :
    ByteStore.readAt (ofContent content) offset len =
      ByteStore.readAt (Memory.mk content) offset len := by
  by_cases h : content.length < offset + len
  · have hfile : ByteStore.readAt (ofContent content) offset len =
      .error (.readPastEnd offset len content.length) := if_pos h
    have hmemory : ByteStore.readAt (Memory.mk content) offset len =
      .error (.readPastEnd offset len content.length) := if_pos h
    rw [hfile, hmemory]
  · have hin := Nat.not_lt.mp h
    rw [(FileStore.reads content).readAt offset len hin,
      (Memory.reads content).readAt offset len hin]

theorem answers_ofContent (content : Bytes) : Answers (ofContent content) content where
  size := rfl
  readAt offset len := (readAt_ofContent content offset len).trans
    ((Memory.mk content).answers.readAt offset len)

theorem append_ofContent (content data : Bytes) :
    (ofContent content).append data = ofContent (content ++ data) := by
  cases data with
  | nil => rw [List.append_nil]; rfl
  | cons b data =>
    have hcounted : content.length + (b :: data).length = (content ++ b :: data).length :=
      List.length_append.symm
    exact congrArg (FileStore.mk (content ++ b :: data)) hcounted

theorem truncate_ofContent (content : Bytes) (newSize : Nat) :
    (ofContent content).truncate newSize =
      (ofContent ((Memory.mk content).truncate newSize).1.data,
        ((Memory.mk content).truncate newSize).2) := by
  by_cases h : content.length < newSize
  · have hmemory : (Memory.mk content).truncate newSize =
      (⟨content⟩, .error (.truncatePastEnd newSize content.length)) := if_pos h
    rw [hmemory]
    exact if_pos h
  · have hmemory : (Memory.mk content).truncate newSize = (⟨content.take newSize⟩, .ok ()) :=
      if_neg h
    have hfile : (ofContent content).truncate newSize =
      (⟨content.take newSize, newSize⟩, .ok ()) := if_neg h
    have hcounted : ofContent (content.take newSize) = ⟨content.take newSize, newSize⟩ :=
      congrArg (FileStore.mk _) (List.length_take_of_le (Nat.not_lt.mp h))
    rw [hmemory, hfile, ← hcounted]

/-- Every call leaves a file that is counted right, with the bytes that memory has, and is answered
alike. -/
theorem run_ofContent (content : Bytes) (c : ByteStore.Call) : run (ofContent content) c =
    (ofContent (run (Memory.mk content) c).1.data, (run (Memory.mk content) c).2) := by
  cases c with
  | append data =>
    have hfile : run (ofContent content) (.append data) =
      ((ofContent content).append data, .ok (.number content.length)) := rfl
    rw [hfile, append_ofContent]
    rfl
  | readAt offset len =>
    exact congrArg (fun r => (ofContent content, r.map Reply.bytes))
      (readAt_ofContent content offset len)
  | readAvailable offset max =>
    exact congrArg (fun r => (ofContent content, r.map Reply.bytes))
      (readAt_ofContent content offset (min (content.length - offset) max))
  | truncate newSize =>
    exact congrArg (fun r => (r.1, r.2.map fun _ => Reply.done))
      (truncate_ofContent content newSize)
  | _ => rfl

/-- Opening the file again finds what is there, so it changes no answer. -/
theorem visitAll_ofContent (content : Bytes) (visits : List Visit) :
    visitAll reopen (ofContent content) visits =
      (ofContent (runAll (Memory.mk content) (visits.filterMap Visit.call?)).1.data,
        (runAll (Memory.mk content) (visits.filterMap Visit.call?)).2) := by
  induction visits generalizing content with
  | nil => rfl
  | cons visit visits ih =>
    cases visit with
    | reopen => exact ih content
    | call c =>
      have hcalls : (Visit.call c :: visits).filterMap Visit.call? =
        c :: visits.filterMap Visit.call? := rfl
      simp only [visitAll, hcalls, runAll, run_ofContent, ih]

/-- A store over a file that is opened again at any moments answers every list of calls as a store
in memory with the same content does, and ends with the same bytes. A block that is appended is
found by both at the offset that was told unless it was cut since below its end. A read of what is
there gives the bytes from the offset on, as far as they go and no more than were asked for, and
fails just if the offset is behind the end. That a range ends past the size is told alike by sums of
64 bits. -/
theorem interchangeable (content : Bytes) (visits : List Visit) :
    let calls := visits.filterMap Visit.call?
    let file := visitAll reopen (ofContent content) visits
    let memory := runAll (Memory.mk content) calls
    let bytes := memory.1.data
    file.2 = memory.2 ∧ file.1.content = bytes ∧
    ByteStore.size file.1 = bytes.length ∧ ByteStore.size memory.1 = bytes.length ∧
    (∀ (i : Nat) (data : Bytes), calls[i]? = some (.append data) →
      ∃ offset, memory.2[i]? = some (.ok (.number offset)) ∧
        ((∀ newSize, .truncate newSize ∈ calls.drop (i + 1) → offset + data.length ≤ newSize) →
          ByteStore.readAt file.1 offset data.length = .ok data ∧
          ByteStore.readAt memory.1 offset data.length = .ok data)) ∧
    (∀ offset max,
      let available : Except StorageError Bytes :=
        if bytes.length < offset then .error (.readPastEnd offset 0 bytes.length)
        else .ok (bytes.extract offset (min (offset + max) bytes.length))
      readAvailable file.1 offset max = available ∧
        readAvailable memory.1 offset max = available) ∧
    (bytes.length < Bytes.capacity 8 - 1 → ∀ offset len,
      ByteStore.readAt file.1 offset len = ByteStore.readAt memory.1 offset len ∧
        ((∃ e, ByteStore.readAt memory.1 offset len = .error e) ↔
          bytes.length < offset ∨ bytes.length < rangeEnd offset len)) := by
  intro calls file memory bytes
  have hfile : file = (ofContent bytes, memory.2) := visitAll_ofContent content visits
  have hmemory := memory.1.answers
  have hanswers : Answers file.1 bytes := by
    rw [hfile]
    exact answers_ofContent bytes
  refine ⟨congrArg Prod.snd hfile, by rw [hfile]; rfl, hanswers.size, hmemory.size, ?_, ?_, ?_⟩
  · intro i data hi
    obtain ⟨front, hoffset, hthere⟩ := Memory.stands_runAll (m := Memory.mk content) hi
    exact ⟨front.length, hoffset, fun hcuts =>
      ⟨hanswers.readAt_behind (hthere hcuts), hmemory.readAt_behind (hthere hcuts)⟩⟩
  · exact fun offset max => ⟨hanswers.readAvailable offset max, hmemory.readAvailable offset max⟩
  · intro hfits offset len
    refine ⟨?_, hmemory.readAt_eq_error_iff hfits offset len⟩
    rw [hanswers.readAt, hmemory.readAt]

/-- A block behind an empty one, a cut that is refused and one at the end of the block. -/
theorem interchangeable_of_truncations :
    let visits : List Visit := [.call (.append []), .call (.append [2, 3]), .reopen,
      .call (.truncate 9), .call (.truncate 3), .reopen, .call (.append [4])]
    let file := visitAll reopen (ofContent [1]) visits
    (∀ newSize, .truncate newSize ∈ (visits.filterMap Visit.call?).drop 2 → 1 + 2 ≤ newSize) ∧
    file.2 = [.ok (.number 1), .ok (.number 1), .error (.truncatePastEnd 9 3), .ok .done,
      .ok (.number 3)] ∧
    ByteStore.readAt file.1 1 2 = .ok [2, 3] ∧
    readAvailable file.1 2 (Bytes.capacity 8 - 1) = .ok [3, 4] ∧
    readAvailable file.1 5 0 = .error (.readPastEnd 5 0 4) := by
  intro visits file
  have hcuts : ∀ newSize, .truncate newSize ∈ (visits.filterMap Visit.call?).drop 2 →
      1 + 2 ≤ newSize := by
    intro newSize hmem
    have hcases : 9 = newSize ∨ 3 = newSize := by
      simpa [visits, Visit.call?] using hmem
    omega
  obtain ⟨hreplies, -, -, -, hblock, havailable, -⟩ := interchangeable [1] visits
  obtain ⟨offset, hoffset, hread⟩ := hblock 1 [2, 3] rfl
  obtain rfl : offset = 1 := by
    cases hoffset
    rfl
  exact ⟨hcuts, hreplies, (hread hcuts).1, (havailable 2 _).1, (havailable 5 0).1⟩

end FileStore

end Segments
