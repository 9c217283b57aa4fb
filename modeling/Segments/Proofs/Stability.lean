import Segments.Proofs.Closing
import Segments.Proofs.Renewal

/-!
# Idle reopening

Opening a store cuts off a torn tail of the journal and brings the attribute store in line with what
is left. What it leaves satisfies every one of its own tests: the journal is read to its end, nothing
is stored for a segment that was released, and no collected value is stale. So a store that is opened
again before anything was done with it changes nothing.
-/

namespace Segments

/-- A table in which nothing is found is empty. -/
theorem Table.isEmpty_of_get?_eq_none {κ α : Type} [DecidableEq κ] {t : Table κ α}
    (h : ∀ k, t.get? k = none) : t.isEmpty = true := by
  refine List.isEmpty_iff.mpr (List.eq_nil_iff_forall_not_mem.mpr fun e he => ?_)
  have hsome := t.get?_eq_some_iff_mem.mpr he
  rw [h] at hsome
  cases hsome

theorem AttributeIndex.containsSegment_of_get?_eq_none {index : AttributeIndex}
    {segment : SegmentId} (h : ∀ id, index.get? segment id = none) :
    index.containsSegment segment = false := by
  refine List.any_eq_false.mpr fun key hkey hsegment => ?_
  obtain ⟨value, hvalue⟩ :=
    (index.entries.contains_iff_get? key).mp ((index.entries.mem_keys_iff key).mp hkey)
  have hnone := h key.2
  rw [AttributeIndex.get?, ← beq_iff_eq.mp hsegment, hvalue] at hnone
  cases hnone

namespace AttributeStore

variable {s s' : AttributeStore} {r : Replayed} {id : SegmentId}

/-! ## Bringing a store in line twice -/

theorem removeSegment_eq_self (h : s.refusing = false) (hnone : ∀ x, s.get? id x = none) :
    s.removeSegment id = (s, .ok ()) := by
  have hcontains := AttributeIndex.containsSegment_of_get?_eq_none hnone
  obtain ⟨keeper, refusing⟩ := s
  obtain rfl : refusing = false := h
  cases keeper with
  | volatile index =>
    change index.containsSegment id = false at hcontains
    simp only [removeSegment, AttributeIndex.removeSegment_eq_self hcontains]
    rfl
  | logged log =>
    change log.index.containsSegment id = false at hcontains
    simp only [removeSegment, IndexLog.removeSegment, hcontains]
    rfl

theorem removeAll_eq_self (h : s.refusing = false) {ids : List SegmentId}
    (hnone : ∀ id ∈ ids, ∀ x, s.get? id x = none) : s.removeAll ids = (s, .ok ()) := by
  induction ids with
  | nil => rfl
  | cons id ids ih =>
    rw [removeAll, removeSegment_eq_self h (hnone id List.mem_cons_self)]
    exact ih fun id' hid' => hnone id' (List.mem_cons_of_mem _ hid')

/-- A store that has every collected value has no stale one. -/
theorem stale_eq_nil (h : ∀ x v, r.extended.get? (id, x) = some v → s.value id x = v) :
    r.stale s id = [] := by
  refine List.filter_eq_nil_iff.mpr fun v hv => ?_
  have hsame := h v.1 v.2 (r.mem_extendedOf.mp hv)
  exact not_not.mpr hsame ∘ of_decide_eq_true

theorem repair_eq_self (h : ∀ id, r.stale s id = []) (ids : List SegmentId) :
    s.repair r ids = (s, [], .ok 0) := by
  induction ids with
  | nil => rfl
  | cons id ids ih =>
    rw [repair, h]
    exact ih

/-- A store that was brought in line with a replayed journal is in line with it. -/
theorem reconcile_reconciled (h : s.refusing = false)
    (hcollected : ∀ id x v, r.extended.get? (id, x) = some v → id ∉ r.released) :
    ∃ s' events n, s.reconcile r = (s', events, .ok n) ∧ s'.refusing = false ∧
      s'.reconcile r = (s', [], .ok 0) := by
  obtain ⟨s', events, n, hrec, h', hvalue, -, hnone⟩ := reconcile_of_taking h r hcollected
  have hstale : ∀ id, r.stale s' id = [] := fun id => stale_eq_nil fun x v hv => by
    rw [hvalue id x (hcollected id x v hv), hv]
    rfl
  refine ⟨s', events, n, hrec, h', ?_⟩
  rw [reconcile, removeAll_eq_self h' hnone]
  dsimp only
  rw [repair_eq_self hstale]
  rfl

/-! ## Opening what is left of a store -/

/-- A store takes writes, and its log, if it has one, has the changes that made the index. -/
structure Settled (s : AttributeStore) : Prop where
  /-- It takes writes. -/
  taking : s.refusing = false
  /-- Its log can be opened. -/
  logs : ∀ l, s.keeper = .logged l → ∃ changes, l.Logs changes

theorem settled_of_openStore {left : AttributeContents} {events : List Event}
    (h : left.openStore = .ok (s, events)) : s.Settled := by
  refine ⟨AttributeContents.refusing_of_openStore h, fun l hl => ?_⟩
  cases left with
  | index i =>
    obtain ⟨rfl, -⟩ := Prod.mk.inj (Except.ok.inj h)
    cases hl
  | log bytes =>
    simp only [AttributeContents.openStore] at h
    split at h
    · cases h
    next l' events' hopened =>
    obtain ⟨rfl, -⟩ := Prod.mk.inj (Except.ok.inj h)
    obtain rfl := AttributeKeeper.logged.inj hl
    exact IndexLog.exists_logs_of_openLog hopened

/-- A settled store is opened to itself from what is left of it, without a warning. -/
theorem Settled.openStore_contents (h : s.Settled) :
    ∃ events, s.contents.openStore = .ok (s, events) ∧ ∀ e ∈ events, e.level = .debug := by
  obtain ⟨keeper, refusing⟩ := s
  obtain rfl : refusing = false := h.taking
  cases keeper with
  | volatile index => exact ⟨[], rfl, nofun⟩
  | logged log =>
    obtain ⟨changes, hlogs⟩ := h.logs log rfl
    obtain ⟨events, hopened, hlevel⟩ := hlogs.openLog
    refine ⟨events, ?_, hlevel⟩
    simp only [contents, AttributeContents.openStore, hopened]
    rfl

theorem Settled.put (h : s.Settled) (hid : id < Bytes.capacity 8) (values : AttributeValues) :
    (s.put id values).1.Settled := by
  obtain ⟨keeper, refusing⟩ := s
  obtain rfl : refusing = false := h.taking
  cases keeper with
  | volatile index => exact ⟨rfl, fun l hl => by cases hl⟩
  | logged log =>
    obtain ⟨changes, hlogs⟩ := h.logs log rfl
    obtain ⟨more, hput⟩ := hlogs.put hid values
    refine ⟨rfl, fun l hl => ?_⟩
    obtain rfl := AttributeKeeper.logged.inj hl
    exact ⟨_, hput⟩

theorem Settled.removeSegment (h : s.Settled) (hid : id < Bytes.capacity 8) :
    (s.removeSegment id).1.Settled := by
  obtain ⟨keeper, refusing⟩ := s
  obtain rfl : refusing = false := h.taking
  cases keeper with
  | volatile index => exact ⟨rfl, fun l hl => by cases hl⟩
  | logged log =>
    obtain ⟨changes, hlogs⟩ := h.logs log rfl
    obtain ⟨⟨more, hremoved⟩, -⟩ := hlogs.removeSegment hid
    refine ⟨rfl, fun l hl => ?_⟩
    obtain rfl := AttributeKeeper.logged.inj hl
    exact ⟨_, hremoved⟩

theorem Settled.reconcile (h : s.Settled) {rs : List Record} (hframable : ∀ r ∈ rs, r.Framable)
    {keys : List (SegmentId × AttributeId)} (hr : r.Agrees (.after rs) keys) :
    (s.reconcile r).1.Settled := by
  refine reconcile_keeps (fun s hs id hid => hs.removeSegment (hr.released_lt hframable hid))
    (fun s hs id hid => hs.put ?_ _) h
  obtain ⟨x, v, hv⟩ := r.mem_extendedSegments.mp hid
  exact hr.collected_lt hframable hv

end AttributeStore

namespace Engine

variable {s : Engine}

/-! ## Shutting down at once -/

theorem writeThrough_eq_self {id : SegmentId}
    (h : ∀ e, s.entries.get? id = some e → e.metadata.attributes.unstored.isEmpty = true) :
    s.writeThrough id = (s, []) := by
  unfold Engine.writeThrough
  cases he : s.entries.get? id with
  | none => rfl
  | some e =>
    have hsame : e.metadata.attributes.writeThrough s.store id e.name =
        (e.metadata.attributes, s.store, []) := by
      rw [AttributeTiers.writeThrough, if_pos (h e he)]
    have hentries := s.entries.modify_eq_self id
      (f := fun e' => { e' with metadata := { e'.metadata with
        attributes := e.metadata.attributes } }) fun e' he' => by
        obtain rfl := Option.some.inj (he.symm.trans he')
        rfl
    simp only [hsame, Engine.modifyEntry, hentries]

theorem writeAllThrough_eq_self
    (h : ∀ id e, s.entries.get? id = some e → e.metadata.attributes.unstored.isEmpty = true)
    (ids : List SegmentId) : s.writeAllThrough ids = (s, []) := by
  induction ids with
  | nil => rfl
  | cons id ids ih => simp only [writeAllThrough, writeThrough_eq_self (h id), ih, List.append_nil]

/-- A store in which no value waits is shut down without writing anything. -/
theorem contents_shutdown
    (h : ∀ id e, s.entries.get? id = some e → e.metadata.attributes.unstored.isEmpty = true)
    (hflush : s.log.device.switch.failFlush = false) (htaking : s.store.refusing = false) :
    s.shutdown.1.contents = s.contents ∧ s.shutdown.2.2 = .ok () := by
  unfold Engine.shutdown
  cases hc : s.closed with
  | true => simp only [if_true, and_self]
  | false =>
    have hwritten := writeAllThrough_eq_self (s := { s with closed := true }) h
    simp only [hwritten, OperationLog.flush_eq_self hflush, AttributeStore.flush, htaking,
      Bool.false_eq_true, if_false]
    exact ⟨rfl, trivial⟩

end Engine

namespace Frame

variable {rs : List Record} {bytes torn : Bytes}

theorem wholes_cons (r : Record) (rs : List Record) : wholes (r :: rs) = whole r ++ wholes rs :=
  List.flatMap_cons

/-- What a cut leaves of whole frames and a torn one: fewer of them, and a torn one. -/
theorem exists_torn_of_cut (hframable : ∀ r ∈ rs, r.Framable) (ht : Torn torn)
    (h : bytes <+: wholes rs ++ torn) :
    ∃ kept tail, kept <+: rs ∧ Torn tail ∧ bytes = wholes kept ++ tail := by
  induction rs generalizing bytes with
  | nil =>
    obtain ⟨r, hr, hprefix, hshort⟩ := ht
    have hlt := Nat.lt_of_le_of_lt h.length_le hshort
    exact ⟨[], bytes, List.nil_prefix, ⟨r, hr, h.trans hprefix, hlt⟩, rfl⟩
  | cons r rs ih =>
    have hr := hframable r List.mem_cons_self
    rw [wholes_cons, List.append_assoc] at h
    by_cases hshort : bytes.length < (whole r).length
    · have hfront := List.prefix_of_prefix_length_le h (List.prefix_append _ _) (Nat.le_of_lt hshort)
      exact ⟨[], bytes, List.nil_prefix, ⟨r, hr, hfront, hshort⟩, rfl⟩
    · obtain ⟨more, rfl⟩ :=
        List.prefix_of_prefix_length_le (List.prefix_append _ _) h (Nat.not_lt.mp hshort)
      obtain ⟨kept, tail, hkept, htail, rfl⟩ :=
        ih (fun r' hr' => hframable r' (List.mem_cons_of_mem _ hr'))
          ((List.prefix_append_right_inj _).mp h)
      refine ⟨r :: kept, tail, (List.prefix_cons_inj r).mpr hkept, htail, ?_⟩
      rw [wholes_cons, List.append_assoc]

end Frame

namespace Replayed

/-- What is reported of records is detail. -/
theorem level_of_mem_steps {r : Replayed} {records : List (Nat × Record)} {e : Event}
    (he : e ∈ (r.steps records).1) : e.level = .debug := by
  induction records generalizing r with
  | nil => cases he
  | cons entry records ih =>
    obtain ⟨offset, record⟩ := entry
    simp only [steps] at he
    split at he
    · cases he
    · rcases List.mem_append.mp he with hone | hrest
      · cases record with
        | create id name values => rw [List.mem_singleton.mp hone]
        | _ => cases hone
      · exact ih hrest

end Replayed

namespace Traffic

variable {t : Traffic}

/-- The journals that a store may leave: its own one, cut at any byte, or frames of it with any bytes
behind them that are no whole frame. -/
inductive Wrote (t : Traffic) : Bytes → Prop where
  /-- The journal is cut, or not. -/
  | cut (n : Nat) : Wrote t (t.engine.log.bytes.take n)
  /-- Something else is behind some frames. -/
  | torn {rs : List Record} {tail : Bytes} (front : rs <+: t.engine.log.records)
      (reads : Frame.read (Frame.wholes rs).length tail = .torn) :
      Wrote t (Frame.wholes rs ++ tail)

/-- A journal that a store may leave is read to its end or to a torn tail, and its records came one
after another. -/
theorem Wrote.scan {journal : Bytes} (h : t.Wrote journal) {rs : List Record} {rest : Bytes}
    (ht : t.engine.Traced rs rest) :
    ∃ kept tail, journal = Frame.wholes kept ++ tail ∧ (∀ r ∈ kept, r.Framable) ∧
      Account.start.AdmitsAll kept ∧
      Scan.ofJournal journal = ⟨Scan.placed 0 kept, (Frame.wholes kept).length, none⟩ := by
  obtain ⟨new, torn, -, hadmits, hframable, htorn, hbytes⟩ := ht.framed
  generalize rs ++ new = all at hadmits hframable hbytes
  have hfront : ∀ {kept}, kept <+: all →
      (∀ r ∈ kept, r.Framable) ∧ Account.start.AdmitsAll kept := by
    rintro kept ⟨more, rfl⟩
    exact ⟨fun r hr => hframable r (List.mem_append_left _ hr),
      (Account.admitsAll_append.mp hadmits).1⟩
  cases h with
  | cut n =>
    rw [hbytes]
    obtain ⟨kept, tail, hkept, htail, hcut⟩ :=
      Frame.exists_torn_of_cut hframable htorn (List.take_prefix n (Frame.wholes all ++ torn))
    obtain ⟨hkeptFramable, hkeptAdmits⟩ := hfront hkept
    rw [hcut]
    exact ⟨kept, tail, rfl, hkeptFramable, hkeptAdmits, Scan.ofJournal_wholes hkeptFramable htail⟩
  | @torn kept tail front reads =>
    rw [OperationLog.records_of_bytes hframable hbytes htorn] at front
    obtain ⟨hkeptFramable, hkeptAdmits⟩ := hfront front
    refine ⟨kept, tail, rfl, hkeptFramable, hkeptAdmits, ?_⟩
    have hread : Frame.read (0 + (Frame.wholes kept).length) tail = .torn := by
      rwa [Nat.zero_add]
    rw [Scan.ofJournal, Scan.fromOffset_wholes hkeptFramable, Scan.fromOffset_of_read_torn hread,
      List.append_nil, Nat.zero_add]

/-- A store is opened over any journal that one may leave and any attribute values that open. Then a
second one is opened at once, or after the first was shut down: it finds a journal and an attribute
store that are those of the first, changes neither, cuts off nothing, repairs nothing and warns of
nothing, and it has the same segments and values. -/
theorem reopen_idle (config config' : Config) (logged : Bool) (clock clock' : AttributeValue)
    (strides : List Stride) {journal : Bytes}
    (hjournal : ((start config logged clock).along strides).Wrote journal)
    {left : AttributeContents} {store : AttributeStore} {opened : List Event}
    (hleft : left.openStore = .ok (store, opened)) :
    ∃ c reports records repaired s, Contents.openStore ⟨journal, left⟩ config' clock' =
        (c, reports ++ [Engine.openedEvent records s.names.size
          (journal.length - c.journal.length) repaired], .ok s) ∧
      s.contents = c ∧ s.shutdown.1.contents = c ∧ s.shutdown.2.2 = .ok () ∧
      ∀ config'' clock'', ∃ reports' s', c.openStore config'' clock'' =
          (c, reports' ++ [Engine.openedEvent records s.names.size 0 0], .ok s') ∧
        (∀ e ∈ reports', e.level = .debug) ∧ s'.entries = s.entries ∧ s'.names = s.names ∧
        s'.nextId = s.nextId ∧ s'.store = s.store := by
  obtain ⟨rs, rest, found, hstands⟩ := stands_start_along config logged clock strides
  obtain ⟨rs', rest', htraced⟩ := hstands.traced
  obtain ⟨kept, tail, rfl, hframable, hadmits, hscan⟩ := hjournal.scan htraced
  obtain ⟨replays, r, hsteps, hr⟩ :=
    Replayed.agrees_start.steps Account.wellFormed_start hadmits 0
  have hsteps' : (Replayed.start.steps (Scan.placed 0 kept)).2 = .ok r := by rw [hsteps]
  have hsettled := AttributeStore.settled_of_openStore hleft
  obtain ⟨store', repairs, n, hrec, htaking, hagain⟩ :=
    AttributeStore.reconcile_reconciled hsettled.taking
      fun id x v hv => (hr.collected id x v hv).2.1
  have hsettled' := hsettled.reconcile hframable hr
  rw [hrec] at hsettled'
  have hfirst := Contents.openStore_eq_of_steps hscan hsteps' hleft hrec config' clock'
  rw [List.take_left] at hfirst
  have hempty : ∀ id e, (Engine.ofReplayed config' (Frame.wholes kept) store' clock' r).entries.get?
      id = some e → e.metadata.attributes.unstored.isEmpty = true := by
    intro id e he
    rw [Engine.get?_ofReplayed] at he
    obtain ⟨e', he', rfl⟩ := Option.map_eq_some_iff.mp he
    exact Table.isEmpty_of_get?_eq_none (hr.plain id e' he').unstored
  obtain ⟨hshut, hdone⟩ := Engine.contents_shutdown hempty rfl htaking
  refine ⟨_, _, _, _, _, hfirst, rfl, hshut, hdone, fun config'' clock'' => ?_⟩
  obtain ⟨events, hopened, hlevel⟩ := hsettled'.openStore_contents
  have hscan' := Scan.ofJournal_wholes hframable Frame.torn_nil
  rw [List.append_nil] at hscan'
  have hsecond := Contents.openStore_eq_of_steps hscan' hsteps' hopened hagain config'' clock''
  rw [List.take_length, Nat.sub_self, Engine.tornEvents, if_neg (Nat.lt_irrefl _),
    List.append_nil, List.append_nil] at hsecond
  refine ⟨_, _, hsecond, fun e he => ?_, rfl, rfl, rfl, rfl⟩
  exact (List.mem_append.mp he).elim (hlevel e) Replayed.level_of_mem_steps

/-- The journal is cut within a record, and the attribute store is left with another value than the
journal has and with a torn change. -/
theorem reopen_idle_of_cut :
    let t := (start .standard true 0).along
      ((earlyMoves ++ lateMoves).map fun m => .moved m)
    let left := AttributeContents.log (IndexChange.encode (.put 1 ⟨0, 7⟩ 6) ++ [1, 2, 3])
    t.Wrote (t.engine.log.bytes.take 100) ∧ (∃ store opened, left.openStore = .ok (store, opened)) ∧
      ∃ c reports s, Contents.openStore ⟨t.engine.log.bytes.take 100, left⟩ .standard 1 =
          (c, reports, .ok s) ∧ s.contents = c ∧
        ∃ records reports' s', c.openStore .standard 2 =
            (c, reports' ++ [Engine.openedEvent records s.names.size 0 0], .ok s') ∧
          s'.store = s.store := by
  intro t left
  have hchanges : ∀ c ∈ [IndexChange.put 1 ⟨0, 7⟩ 6], c.Writable := by
    simp [IndexChange.Writable, Bytes.capacity]
  have hdecode : IndexChange.decodeAll (IndexChange.encode (.put 1 ⟨0, 7⟩ 6) ++ [1, 2, 3]) =
      .ok [.put 1 ⟨0, 7⟩ 6] := IndexChange.decodeAll_flatMap hchanges (by decide)
  have hleft : ∃ store opened, left.openStore = .ok (store, opened) := by
    simp only [left, AttributeContents.openStore, IndexLog.openLog, hdecode]
    exact ⟨_, _, rfl⟩
  have hwrote : t.Wrote (t.engine.log.bytes.take 100) := .cut 100
  obtain ⟨store, opened, hopened⟩ := hleft
  obtain ⟨c, reports, records, repaired, s, hfirst, hcontents, -, -, hagain⟩ :=
    reopen_idle .standard .standard true 0 1 _ hwrote hopened
  obtain ⟨reports', s', hsecond, -, -, -, -, hstore⟩ := hagain .standard 2
  exact ⟨hwrote, ⟨store, opened, hopened⟩, c, _, s, hfirst, hcontents, records, reports', s',
    hsecond, hstore⟩

end Traffic

end Segments
