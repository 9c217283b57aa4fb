import Segments.Engine.Contents
import Segments.Proofs.Observation
import Segments.Proofs.Recovery
import Segments.Proofs.Traffic

/-!
# Opening a store again

A store that is opened over the journal of a run agrees with the account of the journal, as the
store of the run does, whatever an attribute store holds of what the journal has named. So callers
cannot tell the two apart.
-/

namespace Segments

namespace Replayed

variable {r : Replayed} {a : Account} {keys : List (SegmentId × AttributeId)}
  {store : AttributeStore}

/-- What an attribute store holds beyond the collected values is of released segments. -/
theorem Agrees.stored (h : r.Agrees a keys)
    (hkeys : ∀ id x v, store.get? id x = some v → (id, x) ∈ keys) {id : SegmentId}
    {x : AttributeId} (hx : x.isCore = false) (hcol : r.extended.get? (id, x) = none)
    (hid : id ∉ r.released) : store.get? id x = none := by
  rw [Option.eq_none_iff_forall_ne_some]
  intro v hv
  rcases h.covered (id, x) (hkeys id x v hv) with hr | ⟨g, -, -, hcovered⟩
  · exact hid hr
  · obtain ⟨w, hw⟩ := hcovered hx
    rw [hcol] at hw
    cases hw

/-- A replayed journal and an attribute store that holds nothing else make an agreeing engine. -/
theorem Agrees.reopened (h : r.Agrees a keys) (htaking : store.refusing = false)
    (hkeys : ∀ id x v, store.get? id x = some v → (id, x) ∈ keys) (config : Config)
    (journal : Bytes) (clock : AttributeValue) :
    ∃ store' events n, store.reconcile r = (store', events, .ok n) ∧
      (Engine.ofReplayed config journal store' clock r).Agrees a ∧
      ∀ id x v, store'.get? id x = some v → ∃ g, a.segments id = some g ∧ g.state ≠ .merged := by
  obtain ⟨store', events, n, hrec, -, hvalue, hget, hnone⟩ :=
    store.reconcile_of_taking htaking r fun id x v hv => (h.collected id x v hv).2.1
  have hthere : ∀ id x v, store'.get? id x = some v →
      ∃ g, a.segments id = some g ∧ g.state ≠ .merged := by
    intro id x v hv
    cases hx : r.extended.get? (id, x) with
    | some w =>
      obtain ⟨-, -, g, hg, hs⟩ := h.collected id x w hx
      exact ⟨g, hg, hs⟩
    | none =>
      by_cases hid : id ∈ r.released
      · rw [hnone id hid x] at hv
        cases hv
      · rw [hget id x hx hid] at hv
        rcases h.covered (id, x) (hkeys id x v hv) with hr | ⟨g, hg, hs, -⟩
        · exact absurd hr hid
        · exact ⟨g, hg, hs⟩
  have hentries := Engine.get?_ofReplayed config journal store' clock r
  refine ⟨store', events, n, hrec, ⟨fun id => ?_, h.names, h.nextId, fun id e he => ?_,
    fun id hid => ?_⟩, hthere⟩
  · have hshows : Entry.Shows store' id (r.entries.get? id) (a.segments id) := by
      refine (h.segment id).congr_store fun g hg hs x hx => ?_
      have hid := h.not_released hg hs
      rw [hvalue id x hid, Replayed.shadow_value]
      cases hcol : r.extended.get? (id, x) with
      | some v => rfl
      | none =>
        rw [AttributeStore.value, h.stored hkeys hx hcol hid]
        rfl
    rw [hentries]
    cases he : r.entries.get? id with
    | none => rwa [he] at hshows
    | some e =>
      rw [he] at hshows
      exact (Entry.Alike.publish e).shows hshows
  · rw [hentries] at he
    obtain ⟨e', he', -⟩ := Option.map_eq_some_iff.mp he
    exact h.numbered id e' he'
  · rw [h.found]
    refine AttributeStore.valuesOf_eq_noValues fun x => ?_
    rw [Option.eq_none_iff_forall_ne_some]
    intro v hv
    obtain ⟨g, hg, -⟩ := hthere id x v hv
    obtain ⟨e, he, -⟩ := (hg ▸ h.segment id).of_account
    exact Nat.lt_irrefl _ (Nat.lt_of_lt_of_le (h.numbered id e he) hid)

end Replayed

namespace Engine

/-- A store is opened over the frames of records that can come one after another, and torn bytes:
the records are replayed, the attribute store is brought in line, and the torn bytes are cut off. -/
theorem openStore_replayed {rs : List Record} (hframable : ∀ r ∈ rs, r.Framable)
    (hadmits : Account.start.AdmitsAll rs) {rest : Bytes} (hrest : Frame.Torn rest)
    {store : AttributeStore} (htaking : store.refusing = false) (config : Config)
    (clock : AttributeValue) :
    ∃ r store' repairs n reports, (Replayed.start.steps (Scan.placed 0 rs)).2 = .ok r ∧
      r.Agrees (.after rs) (rs.flatMap Record.named) ∧
      store.reconcile r = (store', repairs, .ok n) ∧
      Engine.openStore config (Frame.wholes rs ++ rest) store clock =
        ⟨Frame.wholes rs, store', reports,
          .ok (ofReplayed config (Frame.wholes rs) store' clock r)⟩ := by
  obtain ⟨events, r, hr, hagrees⟩ :=
    Replayed.agrees_start.steps Account.wellFormed_start hadmits 0
  rw [List.nil_append] at hagrees
  have hsteps : (Replayed.start.steps (Scan.placed 0 rs)).2 = .ok r := by rw [hr]
  obtain ⟨store', repairs, n, hrec⟩ := AttributeStore.exists_reconcile htaking r
  obtain ⟨reports, hopening⟩ := openStore_wholes hframable hrest hsteps hrec config clock
  exact ⟨r, store', repairs, n, reports, hsteps, hagrees, hrec, hopening⟩

/-- A store is opened over the frames of records that can come one after another, and torn bytes:
these are cut off, and the account is that of the records. -/
theorem openStore_agrees {rs : List Record} (hframable : ∀ r ∈ rs, r.Framable)
    (hadmits : Account.start.AdmitsAll rs) {rest : Bytes} (hrest : Frame.Torn rest)
    {store : AttributeStore} (htaking : store.refusing = false)
    (hkeys : ∀ id x v, store.get? id x = some v → (id, x) ∈ rs.flatMap Record.named)
    (config : Config) (clock : AttributeValue) :
    let opening := Engine.openStore config (Frame.wholes rs ++ rest) store clock
    ∃ s', opening.result = .ok s' ∧ opening.journal = Frame.wholes rs ∧
      s'.log.bytes = Frame.wholes rs ∧ s'.closed = false ∧ s'.Agrees (.after rs) ∧
      ∀ id x v, s'.store.get? id x = some v →
        ∃ g, (Account.after rs).segments id = some g ∧ g.state ≠ .merged := by
  intro opening
  obtain ⟨r, store', repairs, n, reports, -, hagrees, hrec, hopening⟩ :=
    openStore_replayed hframable hadmits hrest htaking config clock
  obtain ⟨store₁, repairs₁, n₁, hrec₁, hreopened, hthere⟩ :=
    hagrees.reopened htaking hkeys config (Frame.wholes rs) clock
  obtain ⟨rfl, -⟩ := Prod.mk.inj (hrec.symm.trans hrec₁)
  rw [show opening = _ from hopening]
  exact ⟨_, rfl, rfl, rfl, rfl, hreopened, hthere⟩

/-- A store is opened over the journal of a sound engine in which no flush has failed: the torn
bytes are cut off, and the account is that of the records. -/
theorem Sound.openStore {s : Engine} {rs : List Record} {rest : Bytes} (h : s.Sound rs rest)
    (hf : s.log.Flushed rest) {store : AttributeStore} (htaking : store.refusing = false)
    (hkeys : ∀ id x v, store.get? id x = some v → (id, x) ∈ rs.flatMap Record.named)
    (config : Config) (clock : AttributeValue) :
    ∃ s', (Engine.openStore config s.log.bytes store clock).result = .ok s' ∧
      (Engine.openStore config s.log.bytes store clock).journal = Frame.wholes rs ∧
      s'.log.bytes = Frame.wholes rs ∧ s'.closed = false ∧ s'.Agrees (.after rs) ∧
      ∀ id x v, s'.store.get? id x = some v →
        ∃ g, (Account.after rs).segments id = some g ∧ g.state ≠ .merged := by
  rw [h.holds.bytes]
  exact openStore_agrees h.holds.framable h.admitted hf.torn htaking hkeys config clock

end Engine

end Segments
