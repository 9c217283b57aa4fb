import Segments.Proofs.Corruption

/-!
# A journal that cannot be replayed

A store does not open over a journal with a frame that cannot be read, or with a record that
contradicts the state that the records before it stand for. Replay is over by then, but neither has
the journal been cut nor has the attribute store been brought in line. So whatever came before the
fault, both are as they were.
-/

namespace Segments

/-- Whether an error blames the journal for it. -/
def SegmentError.blamesJournal : SegmentError → Bool
  | .journalCorruption _ | .checksumMismatch _ _ | .codec _ => true
  | _ => false

/-! ## Every fault of a journal blames it -/

namespace Frame

theorem blamesJournal_of_decode {kind : RecordKind} {payload : Bytes} {e : SegmentError}
    (h : Record.decode kind payload = .error e) : e.blamesJournal = true := by
  unfold Record.decode at h
  split at h
  · cases h
    rfl
  · split at h
    · cases h
    · cases h
      rfl

/-- A frame that cannot be read is the fault of the journal. -/
theorem blamesJournal_of_read {offset : Nat} {bytes : Bytes} {e : SegmentError}
    (h : read offset bytes = .fault e) : e.blamesJournal = true := by
  unfold read at h
  split at h
  · cases h
  next front tail hfront =>
  split at h
  next e' he' =>
    rcases readHeader_cases offset front with ⟨m, hm⟩ | ⟨kind, hkind⟩
    · rw [he', Except.error.injEq] at hm
      cases h
      rw [hm]
      rfl
    · rw [he'] at hkind
      cases hkind
  next a ha =>
  split at h
  · cases h
  next frame rest hframe =>
  split at h
  next e' he' =>
    cases h
    unfold readWhole at he'
    dsimp only at he'
    split at he'
    · exact blamesJournal_of_decode he'
    · cases he'
      rfl
  · cases h

end Frame

/-- A scan ends with an error only by the fault of the journal. -/
theorem Scan.blamesJournal_of_stop {offset : Nat} {bytes : Bytes} {e : SegmentError}
    (h : (fromOffset offset bytes).stop = some e) : e.blamesJournal = true := by
  induction offset, bytes using fromOffset.induct with
  | case1 offset bytes hread =>
    rw [fromOffset_of_read_torn hread] at h
    cases h
  | case2 offset bytes e' hread =>
    rw [fromOffset_of_read_fault hread] at h
    cases h
    exact Frame.blamesJournal_of_read hread
  | case3 offset bytes r size hread ih =>
    rw [fromOffset_of_read_record hread] at h
    exact ih h

namespace Replayed

variable {r : Replayed} {e : SegmentError}

theorem blamesJournal_located (offset : Nat) (e : SegmentError) :
    (located offset e).blamesJournal = e.blamesJournal := by
  cases e <;> rfl

theorem blamesJournal_of_contradiction {α : Type} {message : String}
    (h : (contradiction message : Except SegmentError α) = .error e) : e.blamesJournal = true := by
  cases h
  rfl

theorem blamesJournal_of_entry {id : SegmentId} (h : r.entry id = .error e) :
    e.blamesJournal = true := by
  unfold entry at h
  split at h
  · split at h
    · exact blamesJournal_of_contradiction h
    · cases h
  · exact blamesJournal_of_contradiction h

/-- A record that is refused is the fault of the journal. -/
theorem blamesJournal_of_step {record : Record} (h : r.step record = .error e) :
    e.blamesJournal = true := by
  cases record with
  | create id name values =>
    simp only [step, create] at h
    split at h
    · exact blamesJournal_of_contradiction h
    · cases h
  | append id offset data values =>
    simp only [step, append] at h
    split at h
    next he => cases h; exact blamesJournal_of_entry he
    split at h
    · cases h
    · exact blamesJournal_of_contradiction h
  | updateAttributes id values =>
    simp only [step, updateAttributes] at h
    split at h
    next he => cases h; exact blamesJournal_of_entry he
    cases h
  | sealing id length =>
    simp only [step, sealing] at h
    split at h
    next he => cases h; exact blamesJournal_of_entry he
    split at h
    · cases h
    · exact blamesJournal_of_contradiction h
  | merge target source sourceLength targetOffset =>
    simp only [step, merge] at h
    split at h
    · exact blamesJournal_of_contradiction h
    split at h
    next he => cases h; exact blamesJournal_of_entry he
    next he => cases h; exact blamesJournal_of_entry he
    split at h
    · cases h
    · exact blamesJournal_of_contradiction h
  | truncate id offset =>
    simp only [step, truncate] at h
    split at h
    next he => cases h; exact blamesJournal_of_entry he
    split at h
    · cases h
    · exact blamesJournal_of_contradiction h
  | delete id =>
    simp only [step, delete] at h
    split at h
    next he => cases h; exact blamesJournal_of_entry he
    cases h

/-- Replay fails at the first record that contradicts the state up to it. -/
theorem steps_eq_error_iff {records : List (Nat × Record)} :
    (r.steps records).2 = .error e ↔ ∃ front offset record rest q e',
      records = front ++ (offset, record) :: rest ∧ (r.steps front).2 = .ok q ∧
        q.step record = .error e' ∧ e = located offset e' := by
  constructor
  · intro h
    induction records generalizing r with
    | nil => cases h
    | cons entry records ih =>
      obtain ⟨offset, record⟩ := entry
      cases hstep : r.step record with
      | error e' =>
        simp only [steps, hstep, Except.error.injEq] at h
        exact ⟨[], offset, record, records, r, e', rfl, rfl, hstep, h.symm⟩
      | ok q =>
        simp only [steps, hstep] at h
        obtain ⟨front, o, x, rest, p, e', rfl, hp, he', he⟩ := ih h
        exact ⟨(offset, record) :: front, o, x, rest, p, e', rfl,
          steps_cons_eq_ok_iff.mpr ⟨q, hstep, hp⟩, he', he⟩
  · rintro ⟨front, offset, record, rest, q, e', rfl, hq, he', rfl⟩
    induction front generalizing r with
    | nil =>
      cases hq
      simp only [List.nil_append, steps, he']
    | cons entry front ih =>
      obtain ⟨p, hp, hq⟩ := steps_cons_eq_ok_iff.mp hq
      simp only [List.cons_append, steps, hp]
      exact ih hq

end Replayed

/-! ## Opening over a faulty journal -/

/-- What is wrong with a journal, and the error that tells of it. -/
inductive Fault (journal : Bytes) : SegmentError → Prop
  /-- A frame cannot be read, and the records before it were taken in. -/
  | unreadable {e : SegmentError} {r : Replayed}
    (hstop : (Scan.ofJournal journal).stop = some e)
    (hsteps : (Replayed.start.steps (Scan.ofJournal journal).records).2 = .ok r) :
    Fault journal e
  /-- A record contradicts the state that the records before it stand for. -/
  | contradiction {front rest : List (Nat × Record)} {offset : Nat} {record : Record}
    {r : Replayed} {e : SegmentError}
    (hrecords : (Scan.ofJournal journal).records = front ++ (offset, record) :: rest)
    (hsteps : (Replayed.start.steps front).2 = .ok r) (hstep : r.step record = .error e) :
    Fault journal (Replayed.located offset e)

namespace Fault

variable {journal : Bytes} {e : SegmentError}

theorem blamesJournal (h : Fault journal e) : e.blamesJournal = true := by
  cases h with
  | unreadable hstop hsteps => exact Scan.blamesJournal_of_stop hstop
  | contradiction hrecords hsteps hstep =>
    rw [Replayed.blamesJournal_located]
    exact Replayed.blamesJournal_of_step hstep

end Fault

/-- A journal is not replayed exactly for its faults. -/
theorem Replayed.ofScan_eq_error_iff {journal : Bytes} {e : SegmentError} :
    (ofScan (.ofJournal journal)).2 = .error e ↔ Fault journal e := by
  constructor
  · intro h
    unfold ofScan at h
    split at h
    next events e' heq =>
      cases h
      obtain ⟨front, offset, record, rest, q, e', hrecords, hq, he', rfl⟩ :=
        steps_eq_error_iff.mp (congrArg Prod.snd heq)
      exact .contradiction hrecords hq he'
    next events r heq =>
      split at h
      next e' hstop =>
        cases h
        exact .unreadable hstop (congrArg Prod.snd heq)
      · cases h
  · intro h
    cases h with
    | unreadable hstop hsteps =>
      unfold ofScan
      split
      next heq => rw [heq] at hsteps; cases hsteps
      next heq => rw [hstop]
    | contradiction hrecords hsteps hstep =>
      have herror := steps_eq_error_iff.mpr ⟨_, _, _, _, _, _, hrecords, hsteps, hstep, rfl⟩
      unfold ofScan
      split
      next heq => rwa [heq] at herror
      next heq => rw [heq] at herror; cases herror

namespace AttributeStore

/-- A write that fails was refused. -/
theorem eq_refusal_of_put {s s' : AttributeStore} {id : SegmentId} {values : AttributeValues}
    {e : SegmentError} (h : s.put id values = (s', .error e)) : e = refusal := by
  unfold put at h
  split at h
  · cases h
    rfl
  · split at h <;> cases h

/-- An erasure that fails was refused. -/
theorem eq_refusal_of_removeSegment {s s' : AttributeStore} {id : SegmentId} {e : SegmentError}
    (h : s.removeSegment id = (s', .error e)) : e = refusal := by
  unfold removeSegment at h
  split at h
  · cases h
    rfl
  · split at h <;> cases h

theorem eq_refusal_of_removeAll {s s' : AttributeStore} {ids : List SegmentId}
    {e : SegmentError} (h : s.removeAll ids = (s', .error e)) : e = refusal := by
  induction ids generalizing s with
  | nil => cases h
  | cons id ids ih =>
    rw [removeAll] at h
    split at h
    next heq =>
      cases h
      exact eq_refusal_of_removeSegment heq
    · exact ih h

theorem eq_refusal_of_repair {s : AttributeStore} {r : Replayed} {ids : List SegmentId}
    {e : SegmentError} (h : (s.repair r ids).2.2 = .error e) : e = refusal := by
  induction ids generalizing s with
  | nil => cases h
  | cons id ids ih =>
    rw [repair] at h
    split at h
    · exact ih h
    · split at h
      next heq =>
        cases h
        exact eq_refusal_of_put heq
      next s' heq =>
        dsimp only at h
        generalize hrest : (s'.repair r ids).2.2 = result at h
        cases result with
        | error e' =>
          cases h
          exact ih hrest
        | ok n => cases h

/-- An attribute store that is not brought in line has refused a write. -/
theorem eq_refusal_of_reconcile {s : AttributeStore} {r : Replayed} {e : SegmentError}
    (h : (s.reconcile r).2.2 = .error e) : e = refusal := by
  unfold reconcile at h
  split at h
  next heq =>
    cases h
    exact eq_refusal_of_removeAll heq
  next heq =>
    split at h
    next hrepair =>
      cases h
      exact eq_refusal_of_repair (congrArg (·.2.2) hrepair)
    · cases h

end AttributeStore

namespace Engine

/-- Over a journal with a fault a store does not open, and nothing was written. -/
theorem openStore_of_fault {journal : Bytes} {e : SegmentError} (h : Fault journal e)
    (config : Config) (store : AttributeStore) (clock : AttributeValue) :
    ∃ events, openStore config journal store clock = ⟨journal, store, events, .error e⟩ := by
  have herror := Replayed.ofScan_eq_error_iff.mpr h
  rcases hscan : Replayed.ofScan (.ofJournal journal) with ⟨events, result⟩
  rw [hscan] at herror
  obtain rfl : result = .error e := herror
  simp only [openStore, hscan]
  exact ⟨events, rfl⟩

/-- A store does not open and the journal is to blame exactly if the journal has a fault, and then
the journal and the attribute store are as they were, whatever was replayed before the fault. -/
theorem openStore_eq_error_iff (config : Config) (journal : Bytes) (store : AttributeStore)
    (clock : AttributeValue) (e : SegmentError) :
    let opening := openStore config journal store clock
    ((opening.result = .error e ∧ e.blamesJournal = true) ↔ Fault journal e) ∧
      (Fault journal e → opening.journal = journal ∧ opening.store = store) := by
  intro opening
  refine ⟨⟨fun ⟨he, hblames⟩ => ?_, fun hfault => ?_⟩, fun hfault => ?_⟩
  · -- Once the journal is replayed only the attribute store can be in the way.
    rcases hscan : Replayed.ofScan (.ofJournal journal) with ⟨events, e' | r⟩
    · simp only [opening, openStore, hscan, Except.error.injEq] at he
      exact Replayed.ofScan_eq_error_iff.mp (he ▸ congrArg Prod.snd hscan)
    · simp only [opening, openStore, hscan] at he
      split at he
      next hrec =>
        cases he
        rw [AttributeStore.eq_refusal_of_reconcile (congrArg (·.2.2) hrec)] at hblames
        cases hblames
      · cases he
  · obtain ⟨events, hopening⟩ := openStore_of_fault hfault config store clock
    exact ⟨congrArg Opening.result hopening, hfault.blamesJournal⟩
  · obtain ⟨events, hopening⟩ := openStore_of_fault hfault config store clock
    exact ⟨congrArg Opening.journal hopening, congrArg Opening.store hopening⟩

/-- A segment with a stored value is created, deleted and deleted again: the store does not open,
and the value is still there. -/
theorem openStore_of_deleted_twice :
    let journal := Frame.wholes [.create 1 "a" [], .delete 1, .delete 1]
    let store := AttributeStore.ofIndex (AttributeIndex.empty.put 1 [(⟨1, 0⟩, 5)])
    let opening := openStore .standard journal store 0
    ∃ e, opening.result = .error e ∧ e.blamesJournal = true ∧ opening.journal = journal ∧
      opening.store = store := by
  intro journal store opening
  let rs : List Record := [.create 1 "a" [], .delete 1, .delete 1]
  have hframable : ∀ r ∈ rs, r.Framable := by
    simp only [rs, Record.Framable]
    decide +kernel
  have hscan := Scan.ofJournal_wholes hframable Frame.torn_nil
  rw [List.append_nil] at hscan
  obtain ⟨e, he⟩ : ∃ e, (Replayed.ofScan (.ofJournal journal)).2 = .error e := by
    rw [hscan]
    exact ⟨_, rfl⟩
  obtain ⟨hiff, huntouched⟩ := openStore_eq_error_iff .standard journal store 0 e
  have hfault := Replayed.ofScan_eq_error_iff.mp he
  obtain ⟨hresult, hblames⟩ := hiff.mpr hfault
  exact ⟨e, hresult, hblames, huntouched hfault⟩

end Engine

end Segments
