import Segments.Proofs.IndexLog
import Segments.Proofs.Reopening

/-!
# Replay is faithful

Whatever has happened to a store, one that is opened over its journal cannot be told apart from it,
even if the attribute store that was left is behind the journal or was never cleaned up.
-/

namespace Segments

/-- What may be left of the attribute store of an engine. -/
inductive Engine.Leaves (s : Engine) : AttributeContents → Prop where
  /-- Any contents that hold nothing but what the journal names. -/
  | contents {left : AttributeContents} {store : AttributeStore} {events : List Event}
      (opens : left.openStore = .ok (store, events))
      (named : ∀ id x v, store.get? id x = some v → (id, x) ∈ s.log.records.flatMap Record.named) :
      Leaves s left
  /-- The log, cut at any byte. -/
  | cut {log : IndexLog} {bytes : Bytes} (kept : s.store.keeper = .logged log)
      (front : bytes <+: log.log) : Leaves s (.log bytes)

/-- An attribute store takes writes when it is opened. -/
theorem AttributeContents.refusing_of_openStore {left : AttributeContents} {store : AttributeStore}
    {events : List Event} (h : left.openStore = .ok (store, events)) : store.refusing = false := by
  cases left with
  | index i =>
    obtain ⟨rfl, -⟩ := Prod.mk.inj (Except.ok.inj h)
    rfl
  | log bytes =>
    simp only [AttributeContents.openStore] at h
    split at h
    · cases h
    · obtain ⟨rfl, -⟩ := Prod.mk.inj (Except.ok.inj h)
      rfl

/-- A store is opened over what is left: the attribute store first, and then the journal. -/
theorem Contents.openStore_eq_of_steps {journal : Bytes} {records : List (Nat × Record)}
    {position : Nat} (hscan : Scan.ofJournal journal = ⟨records, position, none⟩) {r : Replayed}
    (hr : (Replayed.start.steps records).2 = .ok r) {left : AttributeContents}
    {store store' : AttributeStore} {opened : List Event}
    (hleft : left.openStore = .ok (store, opened)) {repairs : List Event} {n : Nat}
    (hrec : store.reconcile r = (store', repairs, .ok n)) (config : Config)
    (clock : AttributeValue) :
    Contents.openStore ⟨journal, left⟩ config clock =
      (⟨journal.take position, store'.contents⟩,
        (opened ++ (Replayed.start.steps records).1 ++
            Engine.tornEvents journal.length position ++ repairs) ++
          [Engine.openedEvent records.length r.names.size (journal.length - position) n],
        .ok (Engine.ofReplayed config (journal.take position) store' clock r)) := by
  simp only [Contents.openStore, hleft, Engine.openStore_eq_of_steps hscan hr hrec,
    List.append_assoc]

namespace Engine

variable {s : Engine} {rs : List Record} {rest : Bytes}

/-- What is left opens to a store that takes writes and holds nothing but what the journal names. -/
theorem Leaves.openStore {left : AttributeContents} (hl : s.Leaves left)
    (ht : s.Tidy (Record.Storable rs)) (hrs : rs <+: s.log.records) :
    ∃ store events, left.openStore = .ok (store, events) ∧ store.refusing = false ∧
      ∀ id x v, store.get? id x = some v → (id, x) ∈ s.log.records.flatMap Record.named := by
  cases hl with
  | @contents left store events opens named =>
    exact ⟨store, events, opens, AttributeContents.refusing_of_openStore opens, named⟩
  | @cut log bytes kept front =>
    obtain ⟨l, events, hopen, hall⟩ := ht.made.openLog (fun _ _ hx => hx.2.1) kept front
    refine ⟨.ofLog l, events, by simp only [AttributeContents.openStore, hopen], rfl,
      fun id x v hv => ?_⟩
    obtain ⟨r, hr, hx⟩ := List.mem_flatMap.mp (hall id x v hv).2.2
    exact List.mem_flatMap.mpr ⟨r, hrs.subset hr, hx⟩

/-- A store is opened over a journal in which no flush has failed and what is left of the attribute
store: the torn bytes are cut off, and the account is that of the records. -/
theorem Sound.reopened (h : s.Sound rs rest) (hf : s.log.Flushed rest)
    (ht : s.Tidy (Record.Storable rs)) {left : AttributeContents} (hl : s.Leaves left)
    (config : Config) (clock : AttributeValue) :
    let opening := Contents.openStore ⟨s.log.bytes, left⟩ config clock
    ∃ s', opening.2.2 = .ok s' ∧ opening.1.journal = Frame.wholes rs ∧
      s'.log.bytes = Frame.wholes rs ∧ s'.closed = false ∧ s'.Agrees (.after rs) ∧
      ∀ id x v, s'.store.get? id x = some v →
        ∃ g, (Account.after rs).segments id = some g ∧ g.state ≠ .merged := by
  obtain ⟨store, events, hopen, htaking, hkeys⟩ :=
    hl.openStore ht (h.holds.records hf ▸ List.prefix_rfl)
  rw [h.holds.records hf] at hkeys
  obtain ⟨s', hs', hjournal, hrest⟩ := h.openStore hf htaking hkeys config clock
  intro opening
  refine ⟨s', ?_, ?_, hrest⟩
  · simp only [opening, Contents.openStore, hopen]
    exact hs'
  · simp only [opening, Contents.openStore, hopen]
    exact hjournal

end Engine

namespace Traffic

/-- A store that is opened over the journal of a run and what is left of its attribute store looks
like the store of the run, and holds stored values only of segments that are there. -/
theorem openStore_run (config config' : Config) (logged : Bool) (clock clock' : AttributeValue)
    (moves : List Move) (hmoves : .failFlush true ∉ moves) {left : AttributeContents}
    (hleft : ((start config logged clock).run moves).engine.Leaves left) :
    ∃ s : Engine, (Contents.openStore ⟨((start config logged clock).run moves).engine.log.bytes,
        left⟩ config' clock').2.2 = .ok s ∧ s.closed = false ∧
      s.SameView ((start config logged clock).run moves).engine ∧
      ∀ id x v, s.store.get? id x = some v →
        ∃ e, ((start config logged clock).run moves).engine.live? id = some e ∧
          e.state ≠ .merged := by
  obtain ⟨rs, rest, hsound, hflushed, htidy⟩ := (sound_start config logged clock).run moves
  have hf := hflushed hmoves (flushed_start config logged clock)
  have ht := htidy (tidy_start config logged clock _)
  have hw := hsound.engine.wellFormed
  obtain ⟨s, hs, -, -, hopened, hagrees, hstored⟩ :=
    hsound.engine.reopened hf ht hleft config' clock'
  refine ⟨s, hs, hopened, hagrees.sameView hsound.engine.agrees hw, fun id x v hv => ?_⟩
  obtain ⟨g, hg, hm⟩ := hstored id x v hv
  obtain ⟨e, he, -, -, hd, -⟩ := hsound.engine.agrees.live hw hg
  exact ⟨e, he, fun hmerged => hm (hd.state.symm.trans hmerged)⟩

/-- A segment is there again with an extended value that the attribute store has lost. -/
theorem openStore_run_of_lost : ∃ s : Engine, (Contents.openStore
    ⟨((start .standard false 0).run [.submit (.create "a" [.replace ⟨0, 7⟩ 5]) 1, .advance 0,
      .evict "a"]).engine.log.bytes, .index .empty⟩ .standard 1).2.2 = .ok s ∧ s.nextId = 2 ∧
    s.names.get? "a" = some 1 ∧ s.answerOf "a" [⟨0, 7⟩] true =
      ((start .standard false 0).run [.submit (.create "a" [.replace ⟨0, 7⟩ 5]) 1, .advance 0,
        .evict "a"]).engine.answerOf "a" [⟨0, 7⟩] true := by
  have hleft : ((start .standard false 0).run [.submit (.create "a" [.replace ⟨0, 7⟩ 5]) 1,
      .advance 0, .evict "a"]).engine.Leaves (.index .empty) :=
    .contents rfl fun _ _ _ hx => by cases hx
  obtain ⟨s, hs, hc, hv, -⟩ := openStore_run .standard .standard false 0 1
    [.submit (.create "a" [.replace ⟨0, 7⟩ 5]) 1, .advance 0, .evict "a"] (by simp) hleft
  exact ⟨s, hs, hv.nextId.trans (by decide +kernel), (hv.names "a").trans (by decide +kernel),
    hv.answers hc (by decide +kernel) "a" [⟨0, 7⟩] true⟩

end Traffic

end Segments
