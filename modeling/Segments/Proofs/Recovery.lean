import Segments.Proofs.Journal
import Segments.Proofs.Replay

/-!
# Recovery

A journal of whole frames and torn bytes is replayed without a contradiction, and the attribute
store is then brought in line: it has the collected values, nothing of the segments that were
released, and nothing else has changed.
-/

namespace Segments

namespace Replayed

variable {r : Replayed} {a : Account} {keys : List (SegmentId × AttributeId)}

/-- Records that can come one after another are all taken in. -/
theorem Agrees.steps (h : r.Agrees a keys) (hw : a.WellFormed) {rs : List Record}
    (hrs : a.AdmitsAll rs) (offset : Nat) :
    ∃ events r', r.steps (Scan.placed offset rs) = (events, .ok r') ∧
      r'.Agrees (rs.foldl Account.apply a) (keys ++ rs.flatMap Record.named) := by
  induction rs generalizing r a keys offset with
  | nil => exact ⟨[], r, rfl, by simpa using h⟩
  | cons record rs ih =>
    obtain ⟨r1, hr1, h1⟩ := h.step hw hrs.1
    obtain ⟨events, r2, hr2, h2⟩ := ih h1 (hw.apply hrs.1) hrs.2
      (offset + (Frame.whole record).length)
    refine ⟨stepEvents record ++ events, r2, ?_, ?_⟩
    · simp only [Scan.placed, Replayed.steps, hr1, hr2]
    · simpa [List.append_assoc] using h2

/-- Replay of several records is replay of the first and then of the others. -/
theorem steps_cons_eq_ok_iff {offset : Nat} {record : Record} {rest : List (Nat × Record)}
    {q : Replayed} : (r.steps ((offset, record) :: rest)).2 = .ok q ↔
      ∃ r', r.step record = .ok r' ∧ (r'.steps rest).2 = .ok q := by
  simp only [steps]
  cases r.step record <;> simp

/-- Replay of records and more records is replay of the ones and then of the others. -/
theorem steps_append_eq_ok_iff {front rest : List (Nat × Record)} {q : Replayed} :
    (r.steps (front ++ rest)).2 = .ok q ↔
      ∃ p, (r.steps front).2 = .ok p ∧ (p.steps rest).2 = .ok q := by
  induction front generalizing r with
  | nil => simp [steps]
  | cons entry front ih =>
    obtain ⟨offset, record⟩ := entry
    simp only [List.cons_append, steps_cons_eq_ok_iff, ih]
    constructor
    · rintro ⟨r', hr', p, hp, hq⟩
      exact ⟨p, ⟨r', hr', hp⟩, hq⟩
    · rintro ⟨p, ⟨r', hr', hp⟩, hq⟩
      exact ⟨r', hr', p, hp, hq⟩

/-- The collected values of a segment are those under its keys. -/
theorem mem_extendedOf (r : Replayed) {id : SegmentId} {x : AttributeId} {v : AttributeValue} :
    (x, v) ∈ r.extendedOf id ↔ r.extended.get? (id, x) = some v := by
  rw [Table.get?_eq_some_iff_mem, extendedOf]
  simp only [List.mem_map, List.mem_filter, beq_iff_eq, Prod.mk.injEq, Prod.exists]
  constructor
  · rintro ⟨j, y, w, ⟨hmem, rfl⟩, rfl, rfl⟩
    exact hmem
  · exact fun hmem => ⟨id, x, v, ⟨hmem, rfl⟩, rfl, rfl⟩

theorem nodup_extendedOf (r : Replayed) (id : SegmentId) :
    ((r.extendedOf id).map Prod.fst).Nodup := by
  have hkeys := Table.nodup_filter r.extended fun e => e.1.1 == id
  rw [extendedOf, List.map_map]
  rw [List.Nodup, List.pairwise_map] at hkeys ⊢
  refine hkeys.imp_of_mem fun {e e'} he he' hne hx => hne ?_
  have h1 := (List.mem_filter.mp he).2
  have h2 := (List.mem_filter.mp he').2
  simp only [beq_iff_eq] at h1 h2
  exact Prod.ext (h1.trans h2.symm) hx

theorem mem_extendedSegments (r : Replayed) {id : SegmentId} :
    id ∈ r.extendedSegments ↔ ∃ x v, r.extended.get? (id, x) = some v := by
  simp only [extendedSegments, List.mem_eraseDups, List.mem_map, Prod.exists, Table.mem_keys_iff,
    Table.contains_iff_get?, exists_and_right, exists_eq_right]

theorem nodup_stale (r : Replayed) (store : AttributeStore) (id : SegmentId) :
    ((r.stale store id).map Prod.fst).Nodup :=
  (r.nodup_extendedOf id).sublist (List.filter_sublist.map Prod.fst)

/-- Stale are the collected values that differ from what the store has. -/
theorem lookup_stale_eq_some (r : Replayed) (store : AttributeStore) {id : SegmentId}
    {x : AttributeId} {v : AttributeValue} : (r.stale store id).lookup x = some v ↔
      r.extended.get? (id, x) = some v ∧ store.value id x ≠ v := by
  rw [Table.lookup_eq_some_iff_mem (r.nodup_stale store id), stale, List.mem_filter,
    mem_extendedOf]
  simp [AttributeStore.value]

/-- With the stale values in place of its own the store has all collected ones. -/
theorem lookup_stale_getD (r : Replayed) (store : AttributeStore) (id : SegmentId)
    (x : AttributeId) : ((r.stale store id).lookup x).getD (store.value id x) =
      (r.extended.get? (id, x)).getD (store.value id x) := by
  cases hs : (r.stale store id).lookup x with
  | some v => rw [((r.lookup_stale_eq_some store).mp hs).1]
  | none =>
    cases hx : r.extended.get? (id, x) with
    | none => rfl
    | some v =>
      by_contra hne
      rw [(r.lookup_stale_eq_some store).mpr ⟨hx, hne⟩] at hs
      cases hs

end Replayed

namespace AttributeStore

/-- A store that takes writes forgets every segment that it is told to. -/
theorem removeAll_of_taking {s : AttributeStore} (h : s.refusing = false) (ids : List SegmentId) :
    ∃ s', s.removeAll ids = (s', .ok ()) ∧ s'.refusing = false ∧
      ∀ id x, s'.get? id x = if id ∈ ids then none else s.get? id x := by
  induction ids generalizing s with
  | nil => exact ⟨s, rfl, h, fun _ _ => by simp⟩
  | cons i ids ih =>
    obtain ⟨s1, hs1, h1, hget1⟩ := removeSegment_of_taking h i
    obtain ⟨s2, hs2, h2, hget2⟩ := ih h1
    refine ⟨s2, by rw [removeAll, hs1]; exact hs2, h2, fun id x => ?_⟩
    rw [hget2, hget1]
    by_cases hi : id = i <;> by_cases hids : id ∈ ids <;> simp [hi, hids]

/-- What repairing one segment leaves: its stale values are replaced. -/
def Repaired (s s' : AttributeStore) (r : Replayed) (id : SegmentId) : Prop :=
  s'.refusing = false ∧ ∀ j x, s'.get? j x =
    if j = id then (((r.stale s id).lookup x).map kept).getD (s.get? j x) else s.get? j x

/-- A segment is repaired before the others. -/
theorem exists_repair_cons {s : AttributeStore} (h : s.refusing = false) (r : Replayed)
    (id : SegmentId) : ∃ s', s.Repaired s' r id ∧ ∀ ids s'' events n,
      s'.repair r ids = (s'', events, .ok n) →
        ∃ events' n', s.repair r (id :: ids) = (s'', events', .ok n') := by
  cases hstale : r.stale s id with
  | nil =>
    refine ⟨s, ⟨h, fun j x => by simp [hstale]⟩, fun ids s'' events n hrest => ⟨events, n, ?_⟩⟩
    rw [repair, hstale]
    exact hrest
  | cons v values =>
    obtain ⟨s', hput, h', hget⟩ := put_of_taking h id (r.nodup_stale s id)
    refine ⟨s', ⟨h', hget⟩, fun ids s'' events n hrest =>
      ⟨repairEvent id (v :: values).length :: events, (v :: values).length + n, ?_⟩⟩
    rw [hstale] at hput
    simp only [repair, hstale, hput, hrest]
    rfl

/-- A store that takes writes then has the collected values, and no other value changed. -/
theorem repair_of_taking {s : AttributeStore} (h : s.refusing = false) (r : Replayed)
    (ids : List SegmentId) :
    ∃ s' events n, s.repair r ids = (s', events, .ok n) ∧ s'.refusing = false ∧
      (∀ id x, id ∈ ids → s'.value id x = (r.extended.get? (id, x)).getD (s.value id x)) ∧
      ∀ id x, (id ∈ ids → r.extended.get? (id, x) = none) → s'.get? id x = s.get? id x := by
  induction ids generalizing s with
  | nil => exact ⟨s, [], 0, rfl, h, nofun, fun _ _ _ => rfl⟩
  | cons i ids ih =>
    obtain ⟨s1, ⟨h1, hget1⟩, hcons⟩ := exists_repair_cons h r i
    obtain ⟨s2, events, n, hs2, h2, hvalue2, hget2⟩ := ih h1
    obtain ⟨events', n', hs⟩ := hcons ids s2 events n hs2
    have hvalue1 : ∀ x, s1.value i x = (r.extended.get? (i, x)).getD (s.value i x) := by
      intro x
      rw [← Replayed.lookup_stale_getD, value, hget1, if_pos rfl]
      cases (r.stale s i).lookup x <;> simp [value]
    have hother : ∀ id x, id ≠ i → s1.value id x = s.value id x := by
      intro id x hid
      rw [value, hget1, if_neg hid, value]
    refine ⟨s2, events', n', hs, h2, fun id x hid => ?_, fun id x hid => ?_⟩
    · by_cases hids : id ∈ ids
      · rw [hvalue2 id x hids]
        by_cases hi : id = i
        · rw [hi, hvalue1]
          cases r.extended.get? (i, x) <;> rfl
        · rw [hother id x hi]
      · obtain rfl := (List.mem_cons.mp hid).resolve_right hids
        rw [value, hget2 id x (fun hin => absurd hin hids), ← value, hvalue1]
    · rw [hget2 id x fun hin => hid (List.mem_cons_of_mem _ hin), hget1]
      by_cases hi : id = i
      · have hnone : (r.stale s i).lookup x = none := by
          rw [Option.eq_none_iff_forall_ne_some]
          intro v hv
          have hsome := ((r.lookup_stale_eq_some s).mp hv).1
          rw [← hi, hid (hi ▸ List.mem_cons_self)] at hsome
          cases hsome
        simp [hnone]
      · rw [if_neg hi]

/-- A store that takes writes is brought in line with a replayed journal. -/
theorem reconcile_of_taking {s : AttributeStore} (h : s.refusing = false) (r : Replayed)
    (hcollected : ∀ id x v, r.extended.get? (id, x) = some v → id ∉ r.released) :
    ∃ s' events n, s.reconcile r = (s', events, .ok n) ∧ s'.refusing = false ∧
      (∀ id x, id ∉ r.released →
        s'.value id x = (r.extended.get? (id, x)).getD (s.value id x)) ∧
      (∀ id x, r.extended.get? (id, x) = none → id ∉ r.released → s'.get? id x = s.get? id x) ∧
      ∀ id ∈ r.released, ∀ x, s'.get? id x = none := by
  obtain ⟨s1, hs1, h1, hget1⟩ := removeAll_of_taking h r.released
  obtain ⟨s2, events, n, hs2, h2, hvalue2, hget2⟩ := repair_of_taking h1 r r.extendedSegments
  have hvalue1 : ∀ id x, id ∉ r.released → s1.value id x = s.value id x := by
    intro id x hid
    rw [value, hget1, if_neg hid, value]
  refine ⟨s2, events ++ behindEvents n, n, by simp only [reconcile, hs1, hs2], h2,
    fun id x hid => ?_, fun id x hx hid => ?_, fun id hid x => ?_⟩
  · by_cases hin : id ∈ r.extendedSegments
    · rw [hvalue2 id x hin, hvalue1 id x hid]
    · have hnone : r.extended.get? (id, x) = none := by
        rw [Option.eq_none_iff_forall_ne_some]
        exact fun v hv => hin (r.mem_extendedSegments.mpr ⟨x, v, hv⟩)
      rw [hnone, value, hget2 id x fun hin' => absurd hin' hin]
      exact hvalue1 id x hid
  · rw [hget2 id x fun _ => hx, hget1, if_neg hid]
  · rw [hget2 id x, hget1, if_pos hid]
    intro _
    rw [Option.eq_none_iff_forall_ne_some]
    exact fun v hv => hcollected id x v hv hid

/-- What every erasure keeps is kept when segments are forgotten. -/
theorem removeAll_keeps {P : AttributeStore → Prop} {ids : List SegmentId}
    (hremove : ∀ s, P s → ∀ id ∈ ids, P (s.removeSegment id).1) {s : AttributeStore} (h : P s) :
    P (s.removeAll ids).1 := by
  induction ids generalizing s with
  | nil => exact h
  | cons id ids ih =>
    have hone := hremove s h id List.mem_cons_self
    rw [removeAll]
    split
    · next heq => rwa [heq] at hone
    · next heq =>
      rw [heq] at hone
      exact ih (fun s hs id' hid' => hremove s hs id' (List.mem_cons_of_mem _ hid')) hone

/-- What the repair of every segment keeps is kept when several are repaired. -/
theorem repair_keeps {P : AttributeStore → Prop} {r : Replayed} {ids : List SegmentId}
    (hput : ∀ s, P s → ∀ id ∈ ids, P (s.put id (r.stale s id)).1) {s : AttributeStore} (h : P s) :
    P (s.repair r ids).1 := by
  induction ids generalizing s with
  | nil => exact h
  | cons id ids ih =>
    have hrest : ∀ s, P s → ∀ id' ∈ ids, P (s.put id' (r.stale s id')).1 :=
      fun s hs id' hid' => hput s hs id' (List.mem_cons_of_mem _ hid')
    have hone := hput s h id List.mem_cons_self
    rw [repair]
    split
    · exact ih hrest h
    · split
      · next heq => rwa [heq] at hone
      · next heq =>
        rw [heq] at hone
        exact ih hrest hone

/-- What every erasure and every repair keeps is kept when a store is brought in line. -/
theorem reconcile_keeps {P : AttributeStore → Prop} {r : Replayed}
    (hremove : ∀ s, P s → ∀ id ∈ r.released, P (s.removeSegment id).1)
    (hput : ∀ s, P s → ∀ id ∈ r.extendedSegments, P (s.put id (r.stale s id)).1)
    {s : AttributeStore} (h : P s) : P (s.reconcile r).1 := by
  have hremoved := removeAll_keeps hremove h
  rw [reconcile]
  split
  · next heq => rwa [heq] at hremoved
  · next heq =>
    rw [heq] at hremoved
    have hrepaired := repair_keeps hput hremoved
    split
    · next heq' => rwa [heq'] at hrepaired
    · next heq' => rwa [heq'] at hrepaired

/-- A store that takes writes is never in the way of opening. -/
theorem exists_reconcile {s : AttributeStore} (h : s.refusing = false) (r : Replayed) :
    ∃ s' events n, s.reconcile r = (s', events, .ok n) := by
  obtain ⟨s1, hs1, h1, -⟩ := removeAll_of_taking h r.released
  obtain ⟨s2, events, n, hs2, -⟩ := repair_of_taking h1 r r.extendedSegments
  exact ⟨s2, events ++ behindEvents n, n, by simp only [reconcile, hs1, hs2]⟩

end AttributeStore

namespace Engine

/-- The entries of an opened store are the replayed ones, with their tails told to readers. -/
theorem get?_ofReplayed (config : Config) (journal : Bytes) (store : AttributeStore)
    (clock : AttributeValue) (r : Replayed) (id : SegmentId) :
    (ofReplayed config journal store clock r).entries.get? id =
      (r.entries.get? id).map Entry.publish :=
  Table.lookup_map_values r.entries.entries Entry.publish id

/-- A journal that is scanned to the end and replayed without a contradiction opens: what was not
scanned is cut off, and the reports say how much that was and how much was repaired. -/
theorem openStore_eq_of_steps {journal : Bytes} {records : List (Nat × Record)} {position : Nat}
    (hscan : Scan.ofJournal journal = ⟨records, position, none⟩) {r : Replayed}
    (hr : (Replayed.start.steps records).2 = .ok r) {store store' : AttributeStore}
    {repairs : List Event} {n : Nat} (hrec : store.reconcile r = (store', repairs, .ok n))
    (config : Config) (clock : AttributeValue) :
    openStore config journal store clock = ⟨journal.take position, store',
      (Replayed.start.steps records).1 ++ tornEvents journal.length position ++ repairs ++
        [openedEvent records.length r.names.size (journal.length - position) n],
      .ok (ofReplayed config (journal.take position) store' clock r)⟩ := by
  have hofScan : Replayed.ofScan ⟨records, position, none⟩ =
      ((Replayed.start.steps records).1, .ok r) := by
    simp only [Replayed.ofScan]
    split
    · next he => rw [he] at hr; cases hr
    · next he => rw [he] at hr ⊢; cases hr; rfl
  simp only [openStore, hscan, hofScan, hrec]

theorem openStore_of_steps {journal : Bytes} {records : List (Nat × Record)} {position : Nat}
    (hscan : Scan.ofJournal journal = ⟨records, position, none⟩) {r : Replayed}
    (hr : (Replayed.start.steps records).2 = .ok r) {store store' : AttributeStore}
    {repairs : List Event} {n : Nat} (hrec : store.reconcile r = (store', repairs, .ok n))
    (config : Config) (clock : AttributeValue) :
    ∃ reports, openStore config journal store clock = ⟨journal.take position, store', reports,
      .ok (ofReplayed config (journal.take position) store' clock r)⟩ :=
  ⟨_, openStore_eq_of_steps hscan hr hrec config clock⟩

/-- A store is opened over whole frames and torn bytes that are replayed without a contradiction:
the torn bytes are cut off. -/
theorem openStore_wholes {rs : List Record} (hframable : ∀ r ∈ rs, r.Framable) {rest : Bytes}
    (hrest : Frame.Torn rest) {r : Replayed}
    (hr : (Replayed.start.steps (Scan.placed 0 rs)).2 = .ok r) {store store' : AttributeStore}
    {repairs : List Event} {n : Nat} (hrec : store.reconcile r = (store', repairs, .ok n))
    (config : Config) (clock : AttributeValue) :
    ∃ reports, openStore config (Frame.wholes rs ++ rest) store clock =
      ⟨Frame.wholes rs, store', reports,
        .ok (ofReplayed config (Frame.wholes rs) store' clock r)⟩ := by
  have hopening :=
    openStore_of_steps (Scan.ofJournal_wholes hframable hrest) hr hrec config clock
  rwa [List.take_left] at hopening

/-- A journal of whole frames that is replayed without a contradiction opens. -/
theorem exists_openStore {rs : List Record} (hframable : ∀ r ∈ rs, r.Framable) {r : Replayed}
    (hr : (Replayed.start.steps (Scan.placed 0 rs)).2 = .ok r) (config : Config)
    (clock : AttributeValue) :
    ∃ s, (Engine.openStore config (Frame.wholes rs) .empty clock).result = .ok s ∧
      s.names = r.names ∧ ∀ id, s.entries.get? id = (r.entries.get? id).map Entry.publish := by
  obtain ⟨store', repairs, n, hrec⟩ :=
    AttributeStore.exists_reconcile (s := .empty) rfl r
  obtain ⟨reports, hopening⟩ := openStore_wholes hframable Frame.torn_nil hr hrec config clock
  rw [List.append_nil] at hopening
  rw [hopening]
  exact ⟨_, rfl, rfl, get?_ofReplayed _ _ _ _ r⟩

/-- A store that opens is made of the state to which its journal is replayed and of the attribute
store that was brought in line with it. -/
theorem eq_ofReplayed_of_openStore {config : Config} {journal : Bytes} {store : AttributeStore}
    {clock : AttributeValue} {s : Engine}
    (h : (Engine.openStore config journal store clock).result = .ok s) :
    ∃ r, (Replayed.start.steps (Scan.ofJournal journal).records).2 = .ok r ∧
      s = ofReplayed config (journal.take (Scan.ofJournal journal).position) (store.reconcile r).1
        clock r := by
  simp only [Engine.openStore] at h
  split at h
  · cases h
  next events r hscan =>
  have hsteps : (Replayed.start.steps (Scan.ofJournal journal).records).2 = .ok r := by
    simp only [Replayed.ofScan] at hscan
    split at hscan
    · cases hscan
    next events' r' hr' =>
    split at hscan <;> cases hscan
    rw [hr']
  split at h
  · cases h
  next hrec =>
  rw [← Except.ok.inj h]
  exact ⟨r, hsteps, by rw [hrec]⟩

/-- A store that opens stands for the state to which its journal is replayed. -/
theorem exists_steps_of_openStore {config : Config} {journal : Bytes} {store : AttributeStore}
    {clock : AttributeValue} {s : Engine}
    (h : (Engine.openStore config journal store clock).result = .ok s) :
    ∃ r, (Replayed.start.steps (Scan.ofJournal journal).records).2 = .ok r ∧
      s.names = r.names ∧ ∀ id, s.entries.get? id = (r.entries.get? id).map Entry.publish := by
  obtain ⟨r, hsteps, rfl⟩ := eq_ofReplayed_of_openStore h
  exact ⟨r, hsteps, rfl, get?_ofReplayed _ _ _ _ r⟩

end Engine

end Segments
