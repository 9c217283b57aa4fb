import Segments.Proofs.Crash
import Segments.Proofs.History
import Segments.Proofs.Rollback
import Segments.Proofs.Solitude

/-!
# Opening a store that rests

A store that rests is opened again over its own journal and its own attribute store, or over what is
left of them after an orderly shutdown. The new store rests too, and has the same records.
-/

namespace Segments

/-- Numbers that can be written are given out up to the last one. -/
theorem Account.nextId_le_capacity {rs : List Record} (hframable : ∀ r ∈ rs, r.Framable) :
    (Account.after rs).nextId ≤ Bytes.capacity 8 := by
  induction rs using List.reverseRecOn with
  | nil => decide
  | append_singleton rs r ih =>
    have hbefore := ih fun r' hr' => hframable r' (List.mem_append_left _ hr')
    rw [Account.after_append_singleton]
    cases r with
    | create id name values =>
      have hr := hframable (.create id name values) (List.mem_append_right _ List.mem_cons_self)
      exact hr.number_lt (n := id) List.mem_cons_self
    | _ => exact hbefore

namespace Replayed

variable {r r' : Replayed}

/-- Nobody stands in line at a replayed segment. -/
def Unclaimed (r : Replayed) : Prop := ∀ id e, r.entries.get? id = some e → e.turns = .empty

theorem Unclaimed.entry (h : r.Unclaimed) {id : SegmentId} {e : Entry} (he : r.entry id = .ok e) :
    e.turns = .empty :=
  h id e (entry_eq_ok_iff.mp he).1

theorem Unclaimed.insert (h : r.Unclaimed) (id : SegmentId) {e : Entry}
    (hr : r'.entries = r.entries.insert id e) (he : e.turns = .empty) : r'.Unclaimed := by
  intro j e' he'
  rw [hr, Table.get?_insert] at he'
  split at he'
  · exact Option.some.inj he' ▸ he
  · exact h j e' he'

/-- Taking in a record gives nobody a turn. -/
theorem Unclaimed.step (h : r.Unclaimed) {record : Record} (hs : r.step record = .ok r') :
    r'.Unclaimed := by
  cases record with
  | create id name values =>
    simp only [Replayed.step, Replayed.create] at hs
    split at hs <;> cases hs
    exact h.insert _ rfl rfl
  | append id offset data values =>
    simp only [Replayed.step, Replayed.append] at hs
    split at hs
    · cases hs
    next e he =>
    split at hs <;> cases hs
    have hfree := h.entry he
    exact h.insert _ rfl hfree
  | updateAttributes id values =>
    simp only [Replayed.step, Replayed.updateAttributes] at hs
    split at hs <;> cases hs
    next e he =>
    have hfree := h.entry he
    exact h.insert _ rfl hfree
  | sealing id length =>
    simp only [Replayed.step, Replayed.sealing] at hs
    split at hs
    · cases hs
    next e he =>
    split at hs <;> cases hs
    have hfree := h.entry he
    exact h.insert _ rfl hfree
  | merge target source sourceLength offset =>
    simp only [Replayed.step, Replayed.merge] at hs
    split at hs
    · cases hs
    split at hs
    · cases hs
    · cases hs
    next t u ht hu =>
    split at hs <;> cases hs
    have hfree := h.entry ht
    have hfree' := h.entry hu
    intro id e he
    change ((r.entries.insert target _).insert source _).get? id = some e at he
    rw [Table.get?_insert, Table.get?_insert] at he
    split at he
    · rw [← Option.some.inj he]
      exact hfree'
    · split at he
      · rw [← Option.some.inj he]
        exact hfree
      · exact h id e he
  | truncate id offset =>
    simp only [Replayed.step, Replayed.truncate] at hs
    split at hs
    · cases hs
    next e he =>
    split at hs <;> cases hs
    have hfree := h.entry he
    exact h.insert _ rfl hfree
  | delete id =>
    simp only [Replayed.step, Replayed.delete] at hs
    split at hs <;> cases hs
    next e he =>
    have hfree := h.entry he
    exact h.insert id rfl hfree

theorem Unclaimed.steps (h : r.Unclaimed) {placed : List (Nat × Record)}
    (hs : (r.steps placed).2 = .ok r') : r'.Unclaimed := by
  induction placed generalizing r with
  | nil => cases hs; exact h
  | cons entry placed ih =>
    obtain ⟨r₁, hstep, hrest⟩ := steps_cons_eq_ok_iff.mp hs
    exact ih (h.step hstep) hrest

end Replayed

namespace AttributeStore

variable {P : SegmentId → AttributeId → Prop} {s earlier : AttributeStore}

/-- Bringing a store in line erases what is released and stores what was collected. -/
theorem Made.reconcile (h : s.Made P earlier) {r : Replayed}
    (hr : ∀ id x v, r.extended.get? (id, x) = some v → P id x)
    (hreleased : ∀ id ∈ r.released, id < Bytes.capacity 8) :
    (s.reconcile r).1.Made P earlier := by
  refine reconcile_keeps (P := fun s => s.Made P earlier)
    (fun s hs id hid => hs.removeSegment (hreleased id hid)) (fun s hs id _ => hs.put ?_) h
  exact fun v hv => hr id v.1 v.2 (r.mem_extendedOf.mp (List.mem_filter.mp hv).1)

end AttributeStore

namespace Replayed.Agrees

variable {r : Replayed} {rs : List Record} {keys : List (SegmentId × AttributeId)}

/-- The numbers of replayed segments can be written, since those of records can. -/
theorem entry_lt (h : r.Agrees (.after rs) keys) (hframable : ∀ r ∈ rs, r.Framable)
    {id : SegmentId} {e : Entry} (he : r.entries.get? id = some e) : id < Bytes.capacity 8 :=
  Nat.lt_of_lt_of_le (h.numbered id e he) (h.nextId ▸ Account.nextId_le_capacity hframable)

theorem released_lt (h : r.Agrees (.after rs) keys) (hframable : ∀ r ∈ rs, r.Framable)
    {id : SegmentId} (hid : id ∈ r.released) : id < Bytes.capacity 8 := by
  obtain ⟨⟨e, he⟩, -⟩ := h.released id hid
  exact h.entry_lt hframable he

theorem collected_lt (h : r.Agrees (.after rs) keys) (hframable : ∀ r ∈ rs, r.Framable)
    {id : SegmentId} {x : AttributeId} {v : AttributeValue}
    (hv : r.extended.get? (id, x) = some v) : id < Bytes.capacity 8 := by
  obtain ⟨-, -, g, hg, -⟩ := h.collected id x v hv
  obtain ⟨e, he, -⟩ := (hg ▸ h.segment id).of_account
  exact h.entry_lt hframable he

end Replayed.Agrees

/-- An attribute store in line with a replayed journal was made by what the records commit. -/
theorem AttributeStore.Made.reconcile_of_steps {store : AttributeStore} {rs : List Record}
    (h : store.Made (Record.Storable rs)) (hframable : ∀ r ∈ rs, r.Framable)
    (hadmits : Account.start.AdmitsAll rs) {r : Replayed}
    (hsteps : (Replayed.start.steps (Scan.placed 0 rs)).2 = .ok r)
    (hr : r.Agrees (.after rs) (rs.flatMap Record.named)) :
    (store.reconcile r).1.Made (Record.Storable rs) := by
  refine h.reconcile (fun id x v hv => ?_) fun id hid => hr.released_lt hframable hid
  refine ⟨(hr.collected id x v hv).1, hr.collected_lt hframable hv, ?_⟩
  rcases Replayed.agrees_start.named_of_steps Account.wellFormed_start hadmits hsteps hv
    with hin | ⟨w, hnone⟩
  · exact hin
  · cases hnone

namespace Scheduler

/-- A store is opened over all that is left of a sound one: it rests, with the same records. -/
theorem rested_openStore {s : Engine} {rs : List Record} (h : s.Sound rs [])
    (hf : s.log.Flushed []) (ht : s.Tidy (Record.Storable rs)) (config : Config)
    (clock : AttributeValue) :
    ∃ s', (s.contents.openStore config clock).2.2 = .ok s' ∧ (ofEngine s').Rested rs ∧
      s'.config = config := by
  have hframable := h.holds.framable
  obtain ⟨store, events, hopen, htaking, hkeys⟩ :=
    (h.leaves_contents hf ht).openStore ht (h.holds.records hf ▸ List.prefix_rfl)
  rw [h.holds.records hf] at hkeys
  obtain ⟨r, store', repairs, n, reports, hsteps, hr, hrec, hopening⟩ :=
    Engine.openStore_replayed hframable h.admitted Frame.torn_nil htaking config clock
  obtain ⟨s', hs', -, -, -, hagrees, -⟩ :=
    Engine.openStore_agrees hframable h.admitted Frame.torn_nil htaking hkeys config clock
  have htraced := Engine.traced_openStore hframable h.admitted Frame.torn_nil htaking hs'
  obtain ⟨store₁, events₁, hopen₁, -, -, hsame⟩ :=
    ht.made.openStore_contents fun _ _ hx => hx.2.1
  obtain ⟨rfl, -⟩ := Prod.mk.inj (Except.ok.inj (hopen.symm.trans hopen₁))
  have hmade := hsame.reconcile_of_steps hframable h.admitted hsteps hr
  rw [hrec] at hmade
  rw [hopening] at hs'
  obtain rfl := Except.ok.inj hs'
  have hentry : ∀ id e, (Engine.ofReplayed config (Frame.wholes rs) store' clock r).entries.get? id
      = some e → ∃ e', r.entries.get? id = some e' ∧ e = e'.publish := by
    intro id e he
    rw [Engine.get?_ofReplayed] at he
    obtain ⟨e', he', rfl⟩ := Option.map_eq_some_iff.mp he
    exact ⟨e', he', rfl⟩
  have hunclaimed : r.Unclaimed := Replayed.Unclaimed.steps (fun id e he => by cases he) hsteps
  refine ⟨Engine.ofReplayed config (Frame.wholes rs) store' clock r, ?_,
    ⟨⟨idle_ofEngine _, fun id e he => ?_⟩, rfl, rfl, ⟨h.admitted, hagrees, htraced.holds⟩,
      ⟨fun id e he x v hv => ?_, hmade⟩, htraced.inOrder, ⟨rfl, rfl, rfl⟩⟩, rfl⟩
  · rw [Engine.contents, h.holds.bytes]
    simp only [Contents.openStore, hopen, hopening]
  · obtain ⟨e', he', rfl⟩ := hentry id e he
    have hfree : e'.publish.turns = .empty := hunclaimed id e' he'
    rw [hfree]
    exact TurnLine.takenBy_empty
  · obtain ⟨e', he', rfl⟩ := hentry id e he
    have hnone : e'.publish.metadata.attributes.unstored.get? x = none :=
      (hr.plain id e' he').unstored x
    rw [hnone] at hv
    cases hv

variable {s : Scheduler} {rs : List Record}

theorem Rested.flushed (h : s.Rested rs) : s.engine.log.Flushed [] :=
  ⟨h.safe.flushes, Frame.torn_nil⟩

/-- A store that rests is opened again, and rests. -/
theorem Rested.reopen (h : s.Rested rs) (config : Config) (clock : AttributeValue) :
    ∃ s', (s.engine.contents.openStore config clock).2.2 = .ok s' ∧ (ofEngine s').Rested rs ∧
      s'.config = config :=
  rested_openStore h.sound h.flushed h.tidy config clock

/-- A store that rests is shut down and opened again, and rests. -/
theorem Rested.restart (h : s.Rested rs) (config : Config) (clock : AttributeValue) :
    ∃ s', (s.shutdown.1.engine.contents.openStore config clock).2.2 = .ok s' ∧
      (ofEngine s').Rested rs ∧ s'.config = config := by
  have hengine : s.shutdown.1.engine = s.engine.shutdown.1 := rfl
  have hdown := h.sound.shutdown
  rw [hengine]
  exact rested_openStore hdown.sound (hdown.flushed h.flushed) (hdown.tidy h.tidy) config clock

end Scheduler

end Segments
