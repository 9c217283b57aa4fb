import Segments.Proofs.Fidelity
import Segments.Proofs.Ledger

/-!
# Attribute values and the journal

Whatever moves the values of extended attributes between the cache, the values that wait and the
attribute store, what is found there is the value that the last record of the journal commits.
-/

namespace Segments

namespace Traffic

/-- In every state of a run the tiers of an active or sealed segment together have the last value
that the journal has of each extended attribute, no cached value differs from it, and no core value
is stored. -/
theorem valueOf_run (config : Config) (logged : Bool) (clock : AttributeValue) (moves : List Move)
    (hmoves : .failFlush true ∉ moves) :
    let s := ((start config logged clock).run moves).engine
    (∀ id e, s.live? id = some e → e.state = .active ∨ e.state = .sealed →
      ∀ x, x.isCore = false → s.valueOf e x = Record.lastValue s.log.records id x ∧
        ∀ v, e.metadata.attributes.cache.peek x = some v →
          v = Record.lastValue s.log.records id x) ∧
    ∀ id x v, s.store.get? id x = some v → x.isCore = false := by
  obtain ⟨rs, rest, hsound, hflushed, htidy⟩ := (sound_start config logged clock).run moves
  have hf := hflushed hmoves (flushed_start config logged clock)
  have ht := htidy (tidy_start config logged clock _)
  intro s
  rw [hsound.engine.holds.records hf]
  refine ⟨fun id e hl hstate x hx => ?_, fun id x v hv => (ht.made.stored hv).1⟩
  obtain ⟨g, hg, -, rfl, hd, hc⟩ := hsound.engine.agrees.of_live hl
  have hm : g.state ≠ .merged := by
    rw [← hd.state]
    rcases hstate with hs | hs <;> rw [Entry.state] at hs <;> rw [hs] <;> decide
  have hcoherent := hc.coherent hm
  have hlast := (Account.sums_after hsound.engine.admitted).values _ g (.there hg hm) x
  refine ⟨(hcoherent.value_eq x).trans hlast, fun v hv => ?_⟩
  exact (hcoherent.cached x v hx hv).trans hlast

/-- The journal has the value of an update that the attribute store refused, and so have the
tiers after an eviction. -/
theorem valueOf_run_of_refused :
    let s := ((start .standard true 0).run [.submit (.create "a" [.replace ⟨0, 7⟩ 5]) 1,
      .advance 0, .refuse true, .submit (.update "a" [.replace ⟨0, 7⟩ 9]) 1, .advance 1,
      .evict "a"]).engine
    (s.live? 1).map (s.valueOf · ⟨0, 7⟩) = some 9 ∧
      Record.lastValue s.log.records 1 ⟨0, 7⟩ = 9 := by
  intro s
  have hvalue : (s.live? 1).map (s.valueOf · ⟨0, 7⟩) = some 9 := by decide +kernel
  have hstate : (s.live? 1).map Entry.state = some .active := by decide +kernel
  have hrun := valueOf_run .standard true 0 [.submit (.create "a" [.replace ⟨0, 7⟩ 5]) 1,
    .advance 0, .refuse true, .submit (.update "a" [.replace ⟨0, 7⟩ 9]) 1, .advance 1,
    .evict "a"] (by simp)
  obtain ⟨e, he, hactive⟩ := Option.map_eq_some_iff.mp hstate
  refine ⟨hvalue, ?_⟩
  rw [he, Option.map_some, Option.some.injEq] at hvalue
  rw [← hvalue]
  exact (hrun.1 1 e he (Or.inl hactive) ⟨0, 7⟩ (by decide)).1.symm

end Traffic

end Segments
