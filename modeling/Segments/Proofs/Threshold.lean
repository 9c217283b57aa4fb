import Segments.Proofs.Interchange
import Segments.Storage.Crash

/-!
# What comes through before a crash

A device that is set to crash once so many bytes were offered to it lets just the first bytes of
all that is offered through, in whatever portions they come. The switch counts what is offered, and
until the crash that is what came through; so the portion that is torn fills the device up to the
threshold, and behind the crash, where the count runs on, nothing is added.
-/

namespace Segments

namespace ByteStore

/-- The states of a store that hold bytes: the bytes are read back, and what is appended is put
behind them. -/
structure Grows {σ : Type} [ByteStore σ] (Holds : σ → Bytes → Prop) : Prop where
  /-- The bytes are read back. -/
  answers {s : σ} {bytes : Bytes} : Holds s bytes → Answers s bytes
  /-- More bytes are taken. -/
  append_snd {s : σ} {bytes : Bytes} : Holds s bytes → ∀ data,
    (ByteStore.append s data).2 = .ok bytes.length
  /-- They are put at the end. -/
  append_fst {s : σ} {bytes : Bytes} : Holds s bytes → ∀ data,
    Holds (ByteStore.append s data).1 (bytes ++ data)

end ByteStore

open ByteStore

theorem Memory.grows : Grows fun (m : Memory) bytes => m.data = bytes where
  answers := by
    rintro m - rfl
    exact m.answers
  append_snd := by
    rintro m - rfl data
    rfl
  append_fst := by
    rintro m - rfl data
    rfl

theorem FileStore.grows : Grows fun (f : FileStore) bytes => f = ofContent bytes where
  answers := by
    rintro - bytes rfl
    exact answers_ofContent bytes
  append_snd := by
    rintro - bytes rfl data
    rfl
  append_fst := by
    rintro - bytes rfl data
    exact append_ofContent bytes data

namespace Crashable

variable {σ : Type} [ByteStore σ] {Holds : σ → Bytes → Prop} {threshold : Nat}
  {content offered : Bytes} {c : Crashable σ}

/-- A device to which bytes were offered: those up to the threshold came through, and the device has
crashed only if there were so many. -/
structure Passed (Holds : σ → Bytes → Prop) (threshold : Nat) (content offered : Bytes)
    (c : Crashable σ) : Prop where
  /-- It is set to crash there. -/
  armed : c.switch.threshold = some threshold
  /-- All bytes were counted. -/
  counted : c.switch.offered = offered.length
  /-- The first of them came through. -/
  holds : Holds c.inner (content ++ offered.take threshold)
  /-- After the crash there is no room left. -/
  full : c.switch.crashed = true → threshold ≤ offered.length

/-- An append takes the device from the bytes offered before to those offered by now. It succeeds if
there is room, and then tells where its bytes begin; otherwise the device has crashed. -/
theorem Passed.append (h : Passed Holds threshold content offered c) (hg : Grows Holds)
    (data : Bytes) :
    Passed Holds threshold content (offered ++ data) (ByteStore.append c data).1 ∧
    ((ByteStore.append c data).2 = .ok (content.length + offered.length) ∧
        offered.length + data.length ≤ threshold ∨
      (∃ e, (ByteStore.append c data).2 = .error e) ∧
        (ByteStore.append c data).1.switch.crashed = true) := by
  have hcounted : c.switch.offered + data.length = (offered ++ data).length := by
    rw [h.counted, List.length_append]
  have htake : (offered ++ data).take threshold =
      offered.take threshold ++ data.take (threshold - offered.length) := List.take_append
  have happend : ByteStore.append c data = c.append data := rfl
  have hfate := c.switch.decides_fate data.length
  rw [happend, Crashable.append]
  generalize c.switch.fate data.length = fate at hfate ⊢
  cases hfate with
  | rejected hcase =>
    have hfull : threshold ≤ offered.length := by
      rcases hcase with hcrashed | ⟨t, ht, hle⟩
      · exact h.full hcrashed
      · rw [h.armed, Option.some.injEq] at ht
        rwa [← ht, h.counted] at hle
    have hnone : threshold - offered.length = 0 := Nat.sub_eq_zero_of_le hfull
    refine ⟨⟨h.armed, hcounted, ?_, fun _ => ?_⟩, Or.inr ⟨⟨_, rfl⟩, rfl⟩⟩
    · rw [htake, hnone, List.take_zero, List.append_nil]
      exact h.holds
    · rw [List.length_append]
      exact Nat.le_add_right_of_le hfull
  | torn t ht whole room short =>
    rw [h.armed, Option.some.injEq] at ht
    subst ht
    rw [h.counted] at short
    have hkept := hg.append_fst h.holds (data.take (threshold - offered.length))
    refine ⟨⟨h.armed, hcounted, ?_, fun _ => ?_⟩, Or.inr ⟨⟨_, rfl⟩, rfl⟩⟩
    · rw [htake, ← List.append_assoc, h.counted]
      exact hkept
    · rw [List.length_append]
      exact Nat.le_of_lt short
  | written whole room =>
    have hroom := room threshold h.armed
    rw [h.counted] at hroom
    have hall : data.take (threshold - offered.length) = data :=
      List.take_of_length_le (by omega)
    have hfront : offered.take threshold = offered := List.take_of_length_le (by omega)
    have hoffset : (content ++ offered.take threshold).length =
        content.length + offered.length := by
      rw [hfront, List.length_append]
    have hwritten := hg.append_fst h.holds data
    refine ⟨⟨h.armed, hcounted, ?_, fun hcrashed => ?_⟩, Or.inl ⟨?_, hroom⟩⟩
    · rw [htake, hall, ← List.append_assoc]
      exact hwritten
    · exact absurd (whole.symm.trans hcrashed) Bool.false_ne_true
    · rw [← hoffset]
      exact hg.append_snd h.holds data

/-- The device after some of the payloads were appended. -/
def afterAppends (c : Crashable σ) (payloads : List Bytes) : Crashable σ :=
  (runAll c (payloads.map .append)).1

theorem afterAppends_append (c : Crashable σ) (payloads more : List Bytes) :
    c.afterAppends (payloads ++ more) = (c.afterAppends payloads).afterAppends more := by
  rw [afterAppends, List.map_append, runAll_fst_append]
  rfl

theorem afterAppends_singleton (c : Crashable σ) (data : Bytes) :
    c.afterAppends [data] = (ByteStore.append c data).1 := rfl

theorem afterAppends_take (c : Crashable σ) (payloads : List Bytes) {i j : Nat} (h : i ≤ j) :
    c.afterAppends (payloads.take j) =
      (c.afterAppends (payloads.take i)).afterAppends ((payloads.take j).drop i) := by
  have hsplit := List.take_append_drop i (payloads.take j)
  rw [List.take_take, Nat.min_eq_left h] at hsplit
  rw [← afterAppends_append, hsplit]

theorem Passed.afterAppends (h : Passed Holds threshold content offered c) (hg : Grows Holds)
    (payloads : List Bytes) :
    Passed Holds threshold content (offered ++ payloads.flatten) (c.afterAppends payloads) := by
  induction payloads generalizing c offered with
  | nil =>
    rw [List.flatten_nil, List.append_nil]
    exact h
  | cons data payloads ih =>
    rw [List.flatten_cons, ← List.append_assoc]
    exact ih (h.append hg data).1

/-- A device that has crashed takes nothing, fails, and stays as it is but for the count. -/
theorem append_of_crashed (h : c.switch.crashed = true) (data : Bytes) :
    (ByteStore.append c data).1.inner = c.inner ∧
      (ByteStore.append c data).1.switch.crashed = true ∧
      ∃ e, (ByteStore.append c data).2 = .error e := by
  have happend : ByteStore.append c data = c.append data := rfl
  have hfate := c.switch.decides_fate data.length
  rw [happend, Crashable.append]
  generalize c.switch.fate data.length = fate at hfate ⊢
  cases hfate with
  | rejected full => exact ⟨rfl, rfl, _, rfl⟩
  | torn t armed whole room short => exact absurd (whole.symm.trans h) Bool.false_ne_true
  | written whole room => exact absurd (whole.symm.trans h) Bool.false_ne_true

theorem afterAppends_of_crashed (h : c.switch.crashed = true) (payloads : List Bytes) :
    (c.afterAppends payloads).inner = c.inner ∧
      (c.afterAppends payloads).switch.crashed = true := by
  induction payloads generalizing c with
  | nil => exact ⟨rfl, h⟩
  | cons data payloads ih =>
    obtain ⟨hinner, hcrashed, -⟩ := append_of_crashed h data
    obtain ⟨hinner', hcrashed'⟩ := ih hcrashed
    exact ⟨hinner'.trans hinner, hcrashed'⟩

/-- The reply to the append of a payload is that of the device after the payloads before. -/
theorem getElem?_replies {payloads : List Bytes} {i : Nat} {reply : Except StorageError Reply}
    (h : (runAll c (payloads.map .append)).2[i]? = some reply) :
    ∃ data, payloads[i]? = some data ∧
      (ByteStore.append (c.afterAppends (payloads.take i)) data).2.map .number = reply := by
  rw [getElem?_runAll, List.getElem?_map, Option.map_map, ← List.map_take] at h
  exact Option.map_eq_some_iff.mp h

/-- A payload stands behind the payloads before it. -/
theorem isPrefix_flatten {payloads : List Bytes} {i : Nat} {data : Bytes}
    (h : payloads[i]? = some data) : (payloads.take i).flatten ++ data <+: payloads.flatten := by
  obtain ⟨hlt, hget⟩ := List.getElem?_eq_some_iff.mp h
  refine ⟨(payloads.drop (i + 1)).flatten, ?_⟩
  rw [List.append_assoc, ← List.flatten_cons, ← hget, ← List.drop_eq_getElem_cons hlt,
    ← List.flatten_append, List.take_append_drop]

/-- A payload for which there is room is there after all appends. -/
theorem Passed.readAt_afterAppends (h : Passed Holds threshold content [] c) (hg : Grows Holds)
    {payloads : List Bytes} {i : Nat} {data : Bytes} (hdata : payloads[i]? = some data)
    (hroom : (payloads.take i).flatten.length + data.length ≤ threshold) :
    ByteStore.readAt (c.afterAppends payloads)
      (content.length + (payloads.take i).flatten.length) data.length = .ok data := by
  have hholds := (h.afterAppends hg payloads).holds
  rw [List.nil_append] at hholds
  have hin : (payloads.take i).flatten ++ data <+: payloads.flatten.take threshold := by
    refine List.prefix_take_iff.mpr ⟨isPrefix_flatten hdata, ?_⟩
    rwa [List.length_append]
  have hthere : content ++ (payloads.take i).flatten ++ data <+:
      content ++ payloads.flatten.take threshold := by
    rw [List.append_assoc]
    exact (List.prefix_append_right_inj content).mpr hin
  have hread := (hg.answers hholds).readAt_behind hthere
  rwa [List.length_append] at hread

/-- Behind an append that fails the device has crashed. -/
theorem Passed.crashed_of_error (h : Passed Holds threshold content [] c) (hg : Grows Holds)
    {payloads : List Bytes} {i : Nat} {e : StorageError}
    (hfailed : (runAll c (payloads.map .append)).2[i]? = some (.error e)) :
    (c.afterAppends (payloads.take (i + 1))).switch.crashed = true := by
  obtain ⟨data, hdata, hanswer⟩ := getElem?_replies hfailed
  rw [List.take_add_one, hdata, Option.toList_some, afterAppends_append, afterAppends_singleton]
  obtain ⟨-, ⟨hok, -⟩ | ⟨-, hcrashed⟩⟩ := (h.afterAppends hg (payloads.take i)).append hg data
  · rw [hok] at hanswer
    cases hanswer
  · exact hcrashed

/-- Once the device has crashed, nothing is added and every append fails. -/
theorem later_of_crashed {payloads : List Bytes} {i j : Nat}
    (h : (c.afterAppends (payloads.take (i + 1))).switch.crashed = true) (hj : i < j) :
    (c.afterAppends (payloads.take j)).inner = (c.afterAppends (payloads.take (i + 1))).inner ∧
      ∀ reply, (runAll c (payloads.map .append)).2[j]? = some reply → ∃ e, reply = .error e := by
  have hlater := c.afterAppends_take payloads (Nat.succ_le_of_lt hj)
  obtain ⟨hinner, hcrashed⟩ := afterAppends_of_crashed h ((payloads.take j).drop (i + 1))
  rw [← hlater] at hinner hcrashed
  refine ⟨hinner, fun reply hreply => ?_⟩
  obtain ⟨data, -, rfl⟩ := getElem?_replies hreply
  obtain ⟨-, -, e, he⟩ := append_of_crashed hcrashed data
  exact ⟨e, by rw [he]; rfl⟩

/-- Payloads are appended, one after another, to a device that is set to crash once so many bytes
were offered. Of all bytes offered, as many come through, the first ones, and all are counted. Each
append is answered. One that succeeds tells where its bytes are, and they are there in the end.
After one that fails every later one fails and adds nothing. -/
theorem runAll_armed (hg : Grows Holds) {inner : σ} (hinner : Holds inner content)
    (threshold : Nat) (failFlush : Bool) (payloads : List Bytes) :
    let armed : CrashSwitch :=
      { CrashSwitch.disarmed with threshold := some threshold, failFlush }
    let device : Crashable σ := ⟨inner, armed⟩
    let final := runAll device (payloads.map .append)
    let total := payloads.flatten.length
    Holds final.1.inner (content ++ payloads.flatten.take (min threshold total)) ∧
    final.1.switch.offered = total ∧ final.2.length = payloads.length ∧
    (∀ (i : Nat) reply, final.2[i]? = some (.ok reply) → ∃ data offset,
      payloads[i]? = some data ∧ reply = .number offset ∧
        offset = content.length + (payloads.take i).flatten.length ∧
        ByteStore.readAt final.1 offset data.length = .ok data) ∧
    ∀ (i : Nat) e, final.2[i]? = some (.error e) → ∀ j, i < j →
      (device.afterAppends (payloads.take j)).inner =
        (device.afterAppends (payloads.take (i + 1))).inner ∧
      ∀ reply, final.2[j]? = some reply → ∃ e', reply = .error e' := by
  intro armed device final total
  have hstart : Passed Holds threshold content [] device := by
    refine ⟨rfl, rfl, ?_, fun hcrashed => by cases hcrashed⟩
    rw [List.take_nil, List.append_nil]
    exact hinner
  have hfinal : Passed Holds threshold content payloads.flatten final.1 :=
    hstart.afterAppends hg payloads
  refine ⟨?_, hfinal.counted, ?_, ?_, fun i e hfailed j hj =>
    later_of_crashed (hstart.crashed_of_error hg hfailed) hj⟩
  · rw [← List.take_eq_take_min]
    exact hfinal.holds
  · rw [length_runAll, List.length_map]
  · intro i reply hreply
    obtain ⟨data, hdata, hanswer⟩ := getElem?_replies hreply
    have hbefore := hstart.afterAppends hg (payloads.take i)
    obtain ⟨-, ⟨hok, hroom⟩ | ⟨⟨e, herror⟩, -⟩⟩ := hbefore.append hg data
    · rw [hok] at hanswer
      cases hanswer
      exact ⟨data, _, hdata, rfl, rfl, hstart.readAt_afterAppends hg hdata hroom⟩
    · rw [herror] at hanswer
      cases hanswer

/-- Over a file, an empty append before the threshold, one across it and two behind it; in memory,
one that ends just at the threshold and an empty one that starts there. -/
theorem runAll_armed_of_boundaries :
    let file : Crashable FileStore := ⟨FileStore.ofContent [9], ⟨some 3, 0, false, false⟩⟩
    let across := runAll file (([[1, 2], [], [3, 4], [], [5]] : List Bytes).map .append)
    let memory : Crashable Memory := ⟨⟨[9]⟩, ⟨some 2, 0, false, true⟩⟩
    let upTo := runAll memory (([[1, 2], []] : List Bytes).map .append)
    across.1.inner = FileStore.ofContent [9, 1, 2, 3] ∧ across.1.switch.offered = 5 ∧
    across.2 = [.ok (.number 1), .ok (.number 3), .error (simulatedCrash "partial write"),
      .error (simulatedCrash "write"), .error (simulatedCrash "write")] ∧
    ByteStore.readAt across.1 1 2 = .ok [1, 2] ∧
    upTo.1.inner.data = [9, 1, 2] ∧ upTo.1.switch.offered = 2 ∧
    upTo.2 = [.ok (.number 1), .error (simulatedCrash "write")] := by
  intro file across memory upTo
  have hcontent : file.inner = FileStore.ofContent [9] := rfl
  have hdata : memory.inner.data = [9] := rfl
  obtain ⟨hfile, hoffered, -, hread, -⟩ :=
    runAll_armed FileStore.grows hcontent 3 false [[1, 2], [], [3, 4], [], [5]]
  obtain ⟨hmemory, hoffered', -, -, -⟩ := runAll_armed Memory.grows hdata 2 true [[1, 2], []]
  obtain ⟨data, offset, hpayload, hnumber, -, hthere⟩ := hread 0 (.number 1) rfl
  cases hpayload
  cases hnumber
  exact ⟨hfile, hoffered, rfl, hthere, hmemory, hoffered', rfl⟩

end Crashable

end Segments
