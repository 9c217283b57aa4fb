import Segments.Journal.Log
import Segments.Proofs.Journal

/-!
# The journal as it is written

The bytes of a journal are whole frames of the records that were committed, and then what is left
of a write that failed. Something can only be left once the device has crashed, after which it
takes nothing more.
-/

namespace Segments

namespace Crashable

/-- What becomes of an append: it is rejected, written in part, or written. -/
inductive Appended (c : Crashable Memory) (data : Bytes) (c' : Crashable Memory) :
    Except StorageError Nat → Prop where
  /-- Nothing was written. -/
  | rejected (e : StorageError) (inner : c'.inner = c.inner) (crashed : c'.switch.crashed = true) :
      Appended c data c' (.error e)
  /-- A part was written. -/
  | torn (e : StorageError) (kept : Nat) (before : c.switch.crashed = false)
      (short : kept < data.length) (inner : c'.inner.data = c.inner.data ++ data.take kept)
      (crashed : c'.switch.crashed = true) : Appended c data c' (.error e)
  /-- All was written. -/
  | written (n : Nat) (before : c.switch.crashed = false)
      (inner : c'.inner.data = c.inner.data ++ data) (crashed : c'.switch.crashed = false) :
      Appended c data c' (.ok n)

/-- An append is one of those. -/
theorem appended (c : Crashable Memory) (data : Bytes) :
    Appended c data (ByteStore.append c data).1 (ByteStore.append c data).2 := by
  change Appended c data (c.append data).1 (c.append data).2
  unfold append
  have hfate := c.switch.decides_fate data.length
  generalize c.switch.fate data.length = fate at hfate ⊢
  cases hfate with
  | rejected full => exact .rejected _ rfl rfl
  | torn t armed whole room short => exact .torn _ (t - c.switch.offered) whole (by omega) rfl rfl
  | written whole room => exact .written _ whole rfl whole

/-- Appending does not change what flushes do. -/
theorem failFlush_append (c : Crashable Memory) (data : Bytes) :
    (ByteStore.append c data).1.switch.failFlush = c.switch.failFlush := by
  change (c.append data).1.switch.failFlush = _
  unfold append
  cases c.switch.fate data.length <;> rfl

end Crashable

namespace OperationLog

/-- The journal has the frames of some records and then some bytes. -/
structure Holds (log : OperationLog) (rs : List Record) (rest : Bytes) : Prop where
  /-- The records can be written. -/
  framable : ∀ r ∈ rs, r.Framable
  /-- Their frames are in front. -/
  bytes : log.bytes = Frame.wholes rs ++ rest
  /-- What follows is the beginning of a frame. -/
  cut : ∃ r : Record, r.Framable ∧ rest <+: Frame.whole r
  /-- Something follows only after a crash. -/
  crashed : rest ≠ [] → log.device.switch.crashed = true

/-- No flush has failed: what follows the records is part of a frame. -/
structure Flushed (log : OperationLog) (rest : Bytes) : Prop where
  /-- Flushes do not fail. -/
  flushes : log.device.switch.failFlush = false
  /-- What follows is not a whole frame. -/
  torn : Frame.Torn rest

/-- A journal with whole frames and nothing else. -/
theorem holds_of_wholes {log : OperationLog} {rs : List Record} (hrs : ∀ r ∈ rs, r.Framable)
    (hb : log.bytes = Frame.wholes rs) : log.Holds rs [] where
  framable := hrs
  bytes := by rw [hb, List.append_nil]
  cut := ⟨.delete 0, ⟨by decide, by decide⟩, List.nil_prefix⟩
  crashed h := absurd rfl h

/-- A new journal has no records and no other bytes. -/
theorem holds_ofBytes_nil (syncOnCommit : Bool) : (ofBytes [] syncOnCommit).Holds [] [] :=
  holds_of_wholes nofun rfl

/-- No flush of a new journal has failed. -/
theorem flushed_ofBytes_nil (syncOnCommit : Bool) : (ofBytes [] syncOnCommit).Flushed [] :=
  ⟨rfl, Frame.torn_nil⟩

variable {log : OperationLog} {rs : List Record} {rest : Bytes} {r : Record}

/-- A flush does nothing, or crashes the device and leaves the bytes. -/
theorem flush_cases (d : Crashable Memory) :
    (d.switch.failFlush = true ∧ ∃ d' e, ByteStore.flush d = (d', .error e) ∧
      d'.inner = d.inner ∧ d'.switch.crashed = true) ∨
    (d.switch.failFlush = false ∧ ByteStore.flush d = (d, .ok ())) := by
  have hflush : ByteStore.flush d = d.push "flush" ByteStore.flush := rfl
  rw [hflush, Crashable.push]
  cases hf : d.switch.failFlush with
  | true => exact Or.inl ⟨rfl, _, _, rfl, rfl, rfl⟩
  | false => exact Or.inr ⟨rfl, rfl⟩

/-- What follows the records after an append that fails: what was there, or the beginning of a
frame. -/
def Cut (rest : Bytes) (r : Record) (rest' : Bytes) : Prop :=
  rest' = rest ∨ r.Framable ∧ rest' <+: Frame.whole r

/-- A flush leaves the bytes of the journal as they are. -/
theorem Holds.flush (h : log.Holds rs rest) : log.flush.1.Holds rs rest := by
  unfold OperationLog.flush
  rcases flush_cases log.device with ⟨-, d, e, hd, hinner, hcrashed⟩ | ⟨-, hok⟩
  · rw [hd]
    exact ⟨h.framable, (congrArg Memory.data hinner).trans h.bytes, h.cut, fun _ => hcrashed⟩
  · rw [hok]
    exact h

/-- Where flushes do not fail, a flush does nothing. -/
theorem flush_eq_self (h : log.device.switch.failFlush = false) : log.flush = (log, .ok ()) := by
  unfold OperationLog.flush
  rcases flush_cases log.device with ⟨hfail, -⟩ | ⟨-, hok⟩
  · cases hfail.symm.trans h
  · rw [hok]

/-- A journal whose flushes succeed is left as it is by one. -/
theorem Flushed.flush (h : log.Flushed rest) : log.flush.1 = log := by rw [flush_eq_self h.flushes]

/-- A record that fits a frame may come behind the others. -/
theorem Holds.framable_snoc (h : log.Holds rs rest) (hr : r.Framable) :
    ∀ r' ∈ rs ++ [r], r'.Framable := by
  intro r' hr'
  rcases List.mem_append.mp hr' with hin | hin
  · exact h.framable r' hin
  · rwa [List.mem_singleton.mp hin]

/-- A record is written, or the error leaves the beginning of its frame. -/
theorem Holds.write (h : log.Holds rs rest) (hr : r.Framable) :
    (∃ n, (log.write (Frame.whole r)).2 = .ok n ∧
      (log.write (Frame.whole r)).1.Holds (rs ++ [r]) [] ∧
      (log.Flushed rest → (log.write (Frame.whole r)).1.Flushed [])) ∨
    (∃ e, (log.write (Frame.whole r)).2 = .error e ∧ ∃ rest', Cut rest r rest' ∧
      (log.write (Frame.whole r)).1.Holds rs rest' ∧
      (log.Flushed rest → (log.write (Frame.whole r)).1.Flushed rest')) := by
  have hempty : log.device.switch.crashed = false → rest = [] := by
    intro hc
    cases rest with
    | nil => rfl
    | cons b bytes =>
      rw [h.crashed (List.cons_ne_nil b bytes)] at hc
      cases hc
  have hsnoc := h.framable_snoc hr
  have hnil : ∃ r : Record, r.Framable ∧ [] <+: Frame.whole r := ⟨r, hr, List.nil_prefix⟩
  have hfail := Crashable.failFlush_append log.device (Frame.whole r)
  have happ := Crashable.appended log.device (Frame.whole r)
  unfold OperationLog.write
  revert hfail happ
  generalize ByteStore.append log.device (Frame.whole r) = appended
  obtain ⟨device, result⟩ := appended
  intro hfail happ
  cases happ with
  | rejected e inner crashed =>
    refine Or.inr ⟨_, rfl, rest, Or.inl rfl, ⟨h.framable, ?_, h.cut, fun _ => crashed⟩, fun hf =>
      ⟨hfail.trans hf.flushes, hf.torn⟩⟩
    rw [← h.bytes]
    exact congrArg Memory.data inner
  | torn e kept before short inner crashed =>
    have hrest := hempty before
    have hprefix : (Frame.whole r).take kept <+: Frame.whole r := List.take_prefix _ _
    have hbytes := h.bytes
    rw [hrest, List.append_nil] at hbytes
    refine Or.inr ⟨_, rfl, (Frame.whole r).take kept, Or.inr ⟨hr, hprefix⟩,
      ⟨h.framable, ?_, ⟨r, hr, hprefix⟩, fun _ => crashed⟩,
      fun hf => ⟨hfail.trans hf.flushes, r, hr, hprefix, ?_⟩⟩
    · rw [← hbytes]
      exact inner
    · rw [List.length_take, Nat.min_eq_left (Nat.le_of_lt short)]
      exact short
  | written n before inner crashed =>
    have hrest := hempty before
    have hbytes := h.bytes
    rw [hrest, List.append_nil] at hbytes
    have hall : device.inner.data = Frame.wholes (rs ++ [r]) := by
      rw [inner, Frame.wholes_append, Frame.wholes_singleton, ← hbytes]
      rfl
    have hall' : device.inner.data = Frame.wholes (rs ++ [r]) ++ [] := by
      rw [List.append_nil, hall]
    simp only
    split
    · rcases flush_cases device with ⟨hflush, d', e, hd', hinner, hcrashed⟩ | ⟨-, hok⟩
      · rw [hd']
        refine Or.inr ⟨_, rfl, Frame.whole r, Or.inr ⟨hr, List.prefix_rfl⟩,
          ⟨h.framable, ?_, ⟨r, hr, List.prefix_rfl⟩, fun _ => hcrashed⟩, fun hf => ?_⟩
        · rw [← Frame.wholes_singleton, ← Frame.wholes_append, ← hall]
          exact congrArg Memory.data hinner
        · have hnot := hflush.symm.trans (hfail.trans hf.flushes)
          cases hnot
      · rw [hok]
        exact Or.inl ⟨n, rfl, ⟨hsnoc, hall', hnil, fun hne => absurd rfl hne⟩, fun hf =>
          ⟨hfail.trans hf.flushes, Frame.torn_nil⟩⟩
    · exact Or.inl ⟨n, rfl, ⟨hsnoc, hall', hnil, fun hne => absurd rfl hne⟩, fun hf =>
        ⟨hfail.trans hf.flushes, Frame.torn_nil⟩⟩

/-- A record is appended, or the error leaves the beginning of its frame. -/
theorem Holds.append (h : log.Holds rs rest) (r : Record) :
    (∃ n, (log.append r).2 = .ok n ∧ (log.append r).1.Holds (rs ++ [r]) [] ∧
      (log.Flushed rest → (log.append r).1.Flushed [])) ∨
    (∃ e, (log.append r).2 = .error e ∧ ∃ rest', Cut rest r rest' ∧
      (log.append r).1.Holds rs rest' ∧
      (log.Flushed rest → (log.append r).1.Flushed rest')) := by
  unfold OperationLog.append
  cases hframe : Frame.encode r with
  | error e => exact Or.inr ⟨e, rfl, rest, Or.inl rfl, h, fun hf => hf⟩
  | ok frame =>
    obtain ⟨hr, rfl⟩ := Frame.encode_eq_ok_iff.mp hframe
    exact h.write hr

/-- The records that a scan of the journal finds. -/
def records (log : OperationLog) : List Record := log.scan.records.map Prod.snd

/-- The records of a journal are those whose frames it has. -/
theorem records_of_bytes {log : OperationLog} (hrs : ∀ r ∈ rs, r.Framable)
    (hb : log.bytes = Frame.wholes rs ++ rest) (ht : Frame.Torn rest) : log.records = rs := by
  rw [records, scan, hb, Scan.ofJournal_wholes hrs ht, Scan.map_snd_placed]

/-- Unless a flush has failed, a scan finds the records that were committed. -/
theorem Holds.records (h : log.Holds rs rest) (hf : log.Flushed rest) : log.records = rs :=
  records_of_bytes h.framable h.bytes hf.torn

/-- A scan finds the records that were committed, and perhaps one whose flush has failed. -/
theorem Holds.exists_records (h : log.Holds rs rest) : ∃ more, log.records = rs ++ more := by
  obtain ⟨r, hr, hrest⟩ := h.cut
  rcases Frame.torn_or_whole hr hrest with htorn | hwhole
  · exact ⟨[], by rw [List.append_nil, records_of_bytes h.framable h.bytes htorn]⟩
  · refine ⟨[r], records_of_bytes (h.framable_snoc hr) ?_ Frame.torn_nil⟩
    rw [h.bytes, hwhole, Frame.wholes_append, Frame.wholes_singleton, List.append_nil]

/-- The device of a journal takes everything. -/
structure Safe (log : OperationLog) : Prop where
  /-- It is not set to crash. -/
  disarmed : log.device.switch.threshold = none
  /-- It has not crashed. -/
  whole : log.device.switch.crashed = false
  /-- Flushes do not fail. -/
  flushes : log.device.switch.failFlush = false

/-- Nothing is left of writes that failed, since none has. -/
theorem Holds.rest_eq_nil (h : log.Holds rs rest) (hs : log.Safe) : rest = [] :=
  Decidable.byContradiction fun hne =>
    Bool.false_ne_true (hs.whole.symm.trans (h.crashed hne))

/-- A safe journal takes a frame at its end, tells where it starts, and stays safe. -/
theorem Safe.write (h : log.Safe) (frame : Bytes) :
    ∃ log', log.write frame = (log', .ok log.size) ∧ log'.Safe ∧
      log'.bytes = log.bytes ++ frame := by
  have hfate : log.device.switch.fate frame.length = .written := by
    simp only [CrashSwitch.fate, h.disarmed, h.whole, Bool.false_eq_true, ↓reduceIte]
  obtain ⟨device, happend, hswitch, hdata⟩ : ∃ device,
      ByteStore.append log.device frame = (device, .ok log.size) ∧
      device.switch = { log.device.switch with
        offered := log.device.switch.offered + frame.length } ∧
      device.inner.data = log.bytes ++ frame := by
    have happend : ByteStore.append log.device frame = log.device.append frame := rfl
    rw [happend, Crashable.append, hfate]
    exact ⟨_, rfl, rfl, rfl⟩
  have hflushes : device.switch.failFlush = false := by
    rw [hswitch]
    exact h.flushes
  have hsafe : ∀ sync count, (⟨device, sync, count⟩ : OperationLog).Safe := fun _ _ =>
    ⟨by rw [hswitch]; exact h.disarmed, by rw [hswitch]; exact h.whole, hflushes⟩
  unfold OperationLog.write
  rw [happend]
  simp only
  split
  · rcases flush_cases device with ⟨hfail, -⟩ | ⟨-, hflush⟩
    · exact absurd (hflushes.symm.trans hfail) Bool.false_ne_true
    · rw [hflush]
      exact ⟨_, rfl, hsafe _ _, hdata⟩
  · exact ⟨_, rfl, hsafe _ _, hdata⟩

/-- A safe journal takes every record that can be written. -/
theorem Safe.append_whole (h : log.Safe) (hr : r.Framable) :
    ∃ log', log.append r = (log', .ok log.size) ∧ log'.Safe ∧
      log'.bytes = log.bytes ++ Frame.whole r := by
  rw [OperationLog.append, Frame.encode_eq_ok_iff.mpr ⟨hr, rfl⟩]
  exact h.write _

/-- A device that takes everything still does after an append. -/
theorem Safe.append (h : log.Safe) (r : Record) : (log.append r).1.Safe := by
  unfold OperationLog.append
  cases Frame.encode r with
  | error e => exact h
  | ok frame =>
    obtain ⟨log', hwrite, hsafe, -⟩ := h.write frame
    simp only [hwrite]
    exact hsafe

/-- Such a device takes every record that fits a frame. -/
theorem Safe.append_eq_ok (h : log.Safe) (hr : r.Framable) : ∃ n, (log.append r).2 = .ok n := by
  obtain ⟨log', happend, -, -⟩ := h.append_whole hr
  exact ⟨log.size, congrArg Prod.snd happend⟩

/-- A journal does not take a record that has no frame. -/
theorem append_of_not_framable (log : OperationLog) (hr : ¬r.Framable) :
    ∃ text, (log.append r).2 = .error (.codec text) := by
  have herror : ∃ text, Frame.encode r = .error (.codec text) := by
    unfold Frame.encode Record.encode
    by_cases hfits : r.fits = true
    · have hlong : ¬r.encodeFitting.length < Bytes.capacity 4 := fun hlength => hr ⟨hfits, hlength⟩
      simp only [if_pos hfits, if_neg hlong]
      exact ⟨_, rfl⟩
    · simp only [if_neg hfits]
      exact ⟨_, rfl⟩
  obtain ⟨text, herror⟩ := herror
  exact ⟨text, by rw [OperationLog.append, herror]⟩

end OperationLog

end Segments
