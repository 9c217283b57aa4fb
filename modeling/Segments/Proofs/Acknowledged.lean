import Segments.Proofs.Traffic

/-!
# What a move acknowledges

A change is acknowledged when its operation ends without an error. A move acknowledges one change at
most, and that is the change whose record it commits, unless there was nothing to do.
-/

namespace Segments

namespace Traffic

/-- The change that a move acknowledges. -/
def acknowledges (t : Traffic) (m : Move) : Option Action :=
  match m with
  | .advance i =>
    match t.operations[i]? with
    | some o =>
      match (t.engine.advance o).2.1.phase with
      | .finished (.ok _) => o.action? t.engine
      | _ => none
    | none => none
  | _ => none

variable {t : Traffic} {new : List Record} {m : Move}

/-- What a move acknowledges is what it commits, or there was nothing to do. -/
inductive Acknowledges (t : Traffic) (m : Move) : List Record → Prop where
  /-- Nothing is committed. -/
  | nothing (idle : ∀ action, t.acknowledges m = some action →
      ∃ s answer, t.engine.Alike s ∧ s.propose action = .idle answer) : Acknowledges t m []
  /-- A change is committed. -/
  | change {s : Engine} {action : Action} {record : Record}
      (acknowledges : t.acknowledges m = some action) (alike : t.engine.Alike s)
      (proposes : s.Proposes action record) : Acknowledges t m [record]

theorem Commits.acknowledges (h : t.Commits m new) : t.Acknowledges m new := by
  have quiet : new = [] → t.acknowledges m = none → t.Acknowledges m new := by
    rintro rfl hnone
    exact .nothing fun action ha => by rw [hnone] at ha; cases ha
  cases m with
  | advance i =>
    cases ho : t.operations[i]? with
    | none =>
      simp only [Commits, ho] at h
      exact quiet h (by simp only [Traffic.acknowledges, ho])
    | some o =>
      simp only [Commits, ho] at h
      cases h with
      | nothing idle =>
        refine .nothing fun action ha => ?_
        simp only [Traffic.acknowledges, ho] at ha
        split at ha
        · next answer hphase =>
          obtain ⟨s, halike, hidle⟩ := idle action answer ha hphase
          exact ⟨s, answer, halike, hidle⟩
        · cases ha
      | @record s action record answer asked alike proposed done =>
        have hdone : t.acknowledges (.advance i) = some action := by
          simp only [Traffic.acknowledges, ho, done, asked]
        exact .change hdone alike (Engine.proposes_iff.mpr ⟨answer, proposed⟩)
  | _ => exact quiet h rfl

/-- What is acknowledged is what an operation is about to do. -/
theorem acknowledges_eq_some {i : Nat} {action : Action}
    (h : t.acknowledges (.advance i) = some action) :
    ∃ o, t.operations[i]? = some o ∧ o.action? t.engine = some action := by
  simp only [acknowledges] at h
  split at h
  · next o ho =>
    split at h
    · exact ⟨o, ho, h⟩
    · cases h
  · cases h

end Traffic

end Segments
