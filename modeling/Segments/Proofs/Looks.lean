import Segments.Proofs.Announcements
import Segments.Proofs.Ledger

/-!
# What one look at a reader gives

A look at a reader gives the next bytes, an end, a failure, or nothing yet. `Looks` lists when each
of them comes, for a reader of an entry whose published tail lies within its bytes. What lies there
is what the records of the journal have brought to the segment, and whatever is brought later comes
behind it.
-/

namespace Segments

namespace Reader

variable {r : Reader} {s : Engine} {e : Entry} {tail : Tail}

/-- Nothing is in the way of a read exactly when none of the things has happened that end it. -/
theorem obstacle?_eq_none {closed : Bool} : r.obstacle? closed tail = none ↔
    closed = false ∧ tail.deleted = false ∧ tail.evictionEpoch = r.evictionEpoch ∧
      tail.merged = false ∧ tail.truncationOffset ≤ r.position := by
  unfold obstacle?
  cases closed with
  | true => simp
  | false =>
    cases hdeleted : tail.deleted with
    | true => simp
    | false =>
      by_cases hepoch : tail.evictionEpoch = r.evictionEpoch
      · cases hmerged : tail.merged with
        | true => simp [hepoch]
        | false => simp [hepoch]
      · simp [hepoch]

/-- The size of the next chunk: what is published and wanted, at most one chunk. -/
def ready (r : Reader) (e : Entry) (chunkSize : Nat) : Nat :=
  min (min (e.published.length - r.position) r.remaining) (max chunkSize 1)

/-- What was published can be read. -/
theorem available_eq (h : e.published.length ≤ e.data.length) (chunkSize : Nat) :
    r.available e chunkSize = .ok ((e.data.drop r.position).take (r.ready e chunkSize)) := by
  unfold available
  split
  · next hend =>
    have hnone : r.ready e chunkSize = 0 := by
      unfold ready
      omega
    rw [hnone, List.take_zero]
  · next hleft =>
    have hfits : ¬e.data.length <
        r.position + min (e.data.length - r.position) (r.ready e chunkSize) := by
      unfold ready
      omega
    have hmin : min (e.data.length - r.position) (r.ready e chunkSize) = r.ready e chunkSize := by
      unfold ready
      omega
    have hread : ByteStore.readAvailable (Memory.mk e.data) r.position (r.ready e chunkSize) =
        .ok ((e.data.drop r.position).take (r.ready e chunkSize)) := by
      change Memory.readAt ⟨e.data⟩ r.position
        (min (e.data.length - r.position) (r.ready e chunkSize)) = _
      rw [Memory.readAt, if_neg hfits, hmin]
    simp only
    split
    · next bytes heq => rw [Except.ok.inj (heq.symm.trans hread)]
    · next err heq => cases heq.symm.trans hread

/-- All that one look at a reader can give. -/
inductive Looks (r : Reader) (s : Engine) (e : Entry) (dropped : Bool) : Reader → Poll → Prop where
  /-- The read is over. -/
  | stays (done : r.done = true) : Looks r s e dropped r .ended
  /-- All that was wanted was delivered. -/
  | filled (going : r.done = false) (filled : r.remaining = 0) :
      Looks r s e dropped { r with done := true } .ended
  /-- Something is in the way. -/
  | fails {error : SegmentError} (going : r.done = false)
      (hindered : r.obstacle? s.closed e.published = some error) :
      Looks r s e dropped { r with done := true } (.failed error)
  /-- The end of a sealed segment is reached. -/
  | closes (going : r.done = false) (wanted : r.remaining ≠ 0)
      (unhindered : r.obstacle? s.closed e.published = none)
      (atEnd : e.published.length ≤ r.position) (sealed : e.published.sealed = true) :
      Looks r s e dropped { r with done := true } .ended
  /-- The end is reached, and there is no store any more that could add to it. -/
  | orphaned (going : r.done = false) (lost : dropped = true) :
      Looks r s e dropped { r with done := true } (.failed (.cancelled "segment store dropped"))
  /-- The end of a segment is reached that may still grow. -/
  | waits (going : r.done = false) (wanted : r.remaining ≠ 0)
      (unhindered : r.obstacle? s.closed e.published = none)
      (atEnd : e.published.length ≤ r.position) (unsealed : e.published.sealed = false) :
      Looks r s e dropped r .waiting
  /-- The next bytes are delivered. -/
  | delivers {count : Nat} (going : r.done = false)
      (unhindered : r.obstacle? s.closed e.published = none) (positive : 0 < count)
      (within : count ≤ r.remaining) (small : count ≤ max s.config.readChunkSize 1)
      (there : r.position + count ≤ e.published.length) :
      Looks r s e dropped (r.advance count) (.chunk ((e.data.drop r.position).take count))

/-- What one look at a reader gives, if nothing else than the bytes was published. -/
theorem next_looks (he : s.entry r.segment = e)
    (h : r.obstacle? s.closed e.published = none → e.published.length ≤ e.data.length)
    (dropped : Bool) : Looks r s e dropped (r.next s dropped).1 (r.next s dropped).2.1 := by
  have hentry : (s.entries.get? r.segment).getD default = e := he
  unfold next
  split
  · next hdone => exact .stays hdone
  · next hgoing =>
    rw [Bool.not_eq_true] at hgoing
    split
    · next hfilled => exact .filled hgoing hfilled
    · next hwanted =>
      simp only [hentry]
      cases hobstacle : r.obstacle? s.closed e.published with
      | some error => exact .fails hgoing hobstacle
      | none =>
        have hwithin := h hobstacle
        simp only [available_eq hwithin]
        by_cases hend : e.published.length ≤ r.position
        · have hnone : r.ready e s.config.readChunkSize = 0 := by
            unfold ready
            omega
          simp only [hnone, List.take_zero]
          split
          · next hsealed => exact .closes hgoing hwanted hobstacle hend hsealed
          · next hopen =>
            rw [Bool.not_eq_true] at hopen
            split
            · next hlost => exact .orphaned hgoing hlost
            · exact .waits hgoing hwanted hobstacle hend hopen
        · have hready : 0 < r.ready e s.config.readChunkSize ∧
              r.ready e s.config.readChunkSize ≤ r.remaining ∧
              r.ready e s.config.readChunkSize ≤ max s.config.readChunkSize 1 ∧
              r.position + r.ready e s.config.readChunkSize ≤ e.published.length := by
            unfold ready
            omega
          obtain ⟨hpositive, hwanted', hsmall, hthere⟩ := hready
          have hlength : ((e.data.drop r.position).take
              (r.ready e s.config.readChunkSize)).length = r.ready e s.config.readChunkSize := by
            rw [List.length_take, List.length_drop]
            omega
          split
          · next heq => cases heq
          · next heq =>
            rw [Except.ok.inj heq] at hlength
            exact absurd hlength (Nat.ne_of_lt hpositive)
          · next bytes _ heq =>
            rw [← Except.ok.inj heq, hlength]
            exact .delivers hgoing hobstacle hpositive hwanted' hsmall hthere

end Reader

end Segments
