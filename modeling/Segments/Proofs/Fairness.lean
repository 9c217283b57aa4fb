import Mathlib.Data.Set.Finite.Basic
import Mathlib.Order.Filter.AtTopBot.Basic
import Mathlib.Order.Filter.Finite
import Mathlib.Data.Nat.Pairing
import Segments.Proofs.Closing
import Segments.Proofs.Waiting

/-!
# Fair runs

An endless run is fair if every operation is looked at again and again. On a store that was shut
down a fair run lets every operation come to its end: nobody comes to a line any more who does not
stand at one, so that whoever an operation waits for it has waited for from the beginning, and those
are of lower rank and end first. What they find at their end, if they would have changed the store,
is that it was shut down.
-/

namespace Segments

/-- An operation has steps left exactly if it has not ended. -/
theorem Phase.stepsLeft_pos {phase : Phase} : 0 < phase.stepsLeft ↔ phase.isFinished = false := by
  cases phase <;> simp [stepsLeft, isFinished]

/-- An operation has no result exactly if it has not ended. -/
theorem Phase.result?_eq_none {phase : Phase} :
    phase.result? = none ↔ phase.isFinished = false := by
  cases phase <;> simp [result?, isFinished]

/-- Two that stand at a line stand there in the order of their tickets. -/
theorem TurnLine.WellFormed.sublist {l : TurnLine} (h : l.WellFormed) {ticket other : Nat}
    (hother : other ∈ l.tickets) (hmem : ticket ∈ l.tickets) (hlt : other < ticket) :
    [other, ticket].Sublist l.tickets := by
  obtain ⟨before, after, hsplit⟩ := List.append_of_mem hother
  have hsorted := h.sorted
  rw [hsplit] at hsorted hmem ⊢
  obtain ⟨-, -, hbefore⟩ := List.pairwise_append.mp hsorted
  have hafter : ticket ∈ after := by
    rcases List.mem_append.mp hmem with hin | hin
    · have hgt := hbefore ticket hin other List.mem_cons_self
      omega
    · exact (List.mem_cons.mp hin).resolve_left (by omega)
  exact ((List.singleton_sublist.mpr hafter).cons_cons other).trans (List.sublist_append_right _ _)

/-- What is true of every operation: it was accepted after others, and looks nothing up if it changes
the store. -/
structure Operation.Regular (o : Operation) (s : Engine) : Prop where
  /-- Its barrier was given out. -/
  barrier : o.barrier ≤ s.pending.last
  /-- It looks nothing up if it changes the store. -/
  writes : o.request.changes = true → o.Writes

namespace Engine

/-- An operation that goes no further than to its next turn stays where it is, or comes to a line and
has fewer steps before it. -/
theorem comeToTurn_phase (s : Engine) (o : Operation) : (s.comeToTurn o).2 = o.phase ∨
    ∃ action held place wanted, (s.comeToTurn o).2 = .inLine action held place wanted ∧
      (s.comeToTurn o).2.stepsLeft < o.phase.stepsLeft := by
  rcases s.comeToTurn_cases o with hsame | ⟨action, held, place, wanted, hline, hbefore⟩
  · exact Or.inl hsame
  · refine Or.inr ⟨action, held, place, wanted, hline, ?_⟩
    rw [hline]
    rcases hbefore with ⟨hphase, hturns⟩ | ⟨held', place', hphase⟩
    · have hlength := Traffic.length_turns action
      rw [hturns] at hlength
      rw [hphase]
      exact Nat.succ_lt_succ hlength
    · rw [hphase]
      exact Nat.lt_succ_self _

end Engine

namespace Traffic

open Engine Filter

/-- The store after so many strides of an endless run. -/
def course (t : Traffic) (run : Nat → Stride) : Nat → Traffic
  | 0 => t
  | n + 1 => (t.course run n).stride (run n)

/-- In an endless run every operation is looked at again and again. -/
def Fair (run : Nat → Stride) : Prop :=
  ∀ i, ∃ᶠ n in atTop, run n = .moved (.advance i)

/-- The store after so many strides of a run is that along their list. -/
theorem course_eq_along (t : Traffic) (run : Nat → Stride) (n : Nat) :
    t.course run n = t.along ((List.range n).map run) := by
  induction n with
  | zero => rfl
  | succ n ih => rw [List.range_succ, List.map_append, List.map_singleton, along_snoc, course, ih]

/-! ## What is true of a store at any moment -/

/-- Who waits for whom can be told, and every operation is as it should be. -/
structure Orderly (t : Traffic) : Prop where
  /-- Whoever stands at a line is an operation in flight. -/
  queued : t.Queued
  /-- Whatever is registered is an operation in flight. -/
  registered : t.Registered
  /-- An account outlines the store. -/
  outlines : ∃ a, t.engine.Outlines a ∧ a.WellFormed
  /-- Every operation is as it should be. -/
  regular : ∀ o ∈ t.operations, o.Regular t.engine

variable {t : Traffic} {x : Stride} {i j n : Nat} {o o' : Operation} {run : Nat → Stride}

/-- An operation that goes on registers nothing. -/
theorem last_advance (s : Engine) (o : Operation) :
    (s.advance o).1.pending.last = s.pending.last := by
  rcases pending_advance s o with ⟨-, hp⟩ | ⟨-, hp⟩
  · rw [hp, Pending.releaseAll_last]
  · rw [hp]

/-- An abandoned operation registers nothing. -/
theorem last_abandon (s : Engine) (o : Operation) (e : SegmentError) :
    (s.abandon o e).1.pending.last = s.pending.last := by
  have hpending : (s.abandon o e).1.pending = s.pending.releaseAll o.registrations :=
    congrArg (·.releaseAll o.registrations) (leaveAll_pending s o.phase.places)
  rw [hpending, Pending.releaseAll_last]

/-- One operation takes a step. -/
theorem regular_set (h : ∀ o ∈ t.operations, o.Regular t.engine) {s : Engine}
    (hlast : s.pending.last = t.engine.pending.last) (ho : t.operations[i]? = some o)
    (hbarrier : o'.barrier = o.barrier) (hwrites : o'.request.changes = true → o'.Writes) :
    ∀ c ∈ t.operations.set i o', c.Regular s := by
  intro c hc
  rcases List.mem_or_eq_of_mem_set hc with hold | rfl
  · have hregular := h c hold
    exact ⟨by rw [hlast]; exact hregular.barrier, hregular.writes⟩
  · refine ⟨?_, hwrites⟩
    rw [hbarrier, hlast]
    exact (h o (List.mem_of_getElem? ho)).barrier

/-- Operations stay as they are in another engine with the same registrations. -/
theorem regular_withEngine (h : ∀ o ∈ t.operations, o.Regular t.engine) {s : Engine}
    (hp : s.pending = t.engine.pending) : ∀ o ∈ (t.withEngine s).operations, o.Regular s :=
  fun o ho => ⟨by rw [hp]; exact (h o ho).barrier, (h o ho).writes⟩

/-- They stay so along a move. -/
theorem regular_step (h : ∀ o ∈ t.operations, o.Regular t.engine) (m : Move) :
    ∀ o ∈ (t.step m).operations, o.Regular (t.step m).engine := by
  cases m with
  | submit request timeout =>
    cases hvalid : request.validate t.engine.config timeout with
    | error e =>
      simp only [step, Engine.accept, hvalid]
      exact h
    | ok u =>
      simp only [step, accept_of_validate hvalid]
      have hlast := (t.engine.pending.registerAll_last request.names).1
      intro o ho
      rcases List.mem_append.mp ho with hold | hnew
      · exact ⟨Nat.le_trans (h o hold).barrier hlast, (h o hold).writes⟩
      · obtain rfl := List.mem_singleton.mp hnew
        exact ⟨hlast, fun hchanges => ⟨hchanges, trivial⟩⟩
  | advance i =>
    simp only [step]
    cases ho : t.operations[i]? with
    | none => exact h
    | some o =>
      exact regular_set h (last_advance t.engine o) ho rfl fun hchanges =>
        (advancePhase_goes t.engine o).writes ((h o (List.mem_of_getElem? ho)).writes hchanges)
  | pause i =>
    simp only [step, pause]
    cases ho : t.operations[i]? with
    | none => exact h
    | some o =>
      exact regular_set h (by rw [comeToTurn_pending]) ho rfl fun hchanges =>
        writes_comeToTurn t.engine ((h o (List.mem_of_getElem? ho)).writes hchanges)
  | abandon i error =>
    simp only [step]
    cases ho : t.operations[i]? with
    | none => exact h
    | some o =>
      simp only
      split
      · exact h
      · exact regular_set h (last_abandon t.engine o error) ho rfl fun hchanges =>
          ⟨hchanges, trivial⟩
  | evict name => exact regular_withEngine h (pending_evict _ name)
  | writeThrough segment => exact regular_withEngine h (pending_writeThrough _ segment)
  | shutdown => exact regular_withEngine h (pending_shutdown _)
  | _ => exact regular_withEngine h rfl

/-- They stay so along a stride. -/
theorem regular_stride (h : ∀ o ∈ t.operations, o.Regular t.engine) (x : Stride) :
    ∀ o ∈ (t.stride x).operations, o.Regular (t.stride x).engine := by
  cases x with
  | moved m => exact regular_step h m
  | reopened config left clock =>
    simp only [stride]
    split
    · exact fun o ho => by cases ho
    · exact h

/-- After any strides from a new store all is as it should be. -/
theorem orderly_along (config : Config) (logged : Bool) (clock : AttributeValue)
    (strides : List Stride) : ((start config logged clock).along strides).Orderly := by
  obtain ⟨hq, hr⟩ := queued_along config logged clock strides
  obtain ⟨rs, rest, left, hstands⟩ := stands_start_along config logged clock strides
  refine ⟨hq, hr, ⟨_, hstands.sound.engine.agrees.outlines, hstands.sound.engine.wellFormed⟩, ?_⟩
  clear hq hr hstands
  induction strides using List.reverseRecOn with
  | nil => exact fun o ho => by cases ho
  | append_singleton strides x ih =>
    rw [along_snoc]
    exact regular_stride ih x

/-! ## What a stride does to an operation -/

/-- An operation has gone on. -/
structure Advances (t t' : Traffic) (o o' : Operation) : Prop where
  /-- It is the operation that it was. -/
  same : o' = { o with phase := o'.phase }
  /-- It has fewer steps before it. -/
  fewer : o'.phase.stepsLeft < o.phase.stepsLeft
  /-- What it does to the lines is what an operation does with its places. -/
  queues : Engine.Queues t.engine o.phase.places t'.engine o'.phase
  /-- It comes to a line only from another, or at its beginning. -/
  line : o.phase.places = [] → o.phase = .accepted ∨ o'.phase.places = []

/-- An operation stays where it is or goes on. -/
theorem operation_stride (h : t.Orderly) (hx : x.staysOpen = true)
    (ho : t.operations[i]? = some o) :
    ∃ o', (t.stride x).operations[i]? = some o' ∧ (o' = o ∨ Advances t (t.stride x) o o') := by
  obtain ⟨a, hs, ha⟩ := h.outlines
  obtain ⟨hi, -⟩ := List.getElem?_eq_some_iff.mp ho
  cases x with
  | reopened config left clock => cases hx
  | moved m =>
    by_cases hm : ∃ e, m = .abandon i e
    · obtain ⟨error, rfl⟩ := hm
      simp only [stride, step, ho]
      split
      · exact ⟨o, ho, Or.inl rfl⟩
      · next hf =>
        have hq : Engine.Queues t.engine o.phase.places (t.engine.abandon o error).1
          (.finished (.error error)) := .ends _ (abandon_clears h.queued o error)
        have hlt : 0 < o.phase.stepsLeft := Phase.stepsLeft_pos.mpr (by simpa using hf)
        exact ⟨_, List.getElem?_set_self hi, Or.inr ⟨rfl, hlt, hq, fun _ => Or.inr rfl⟩⟩
    rcases t.operations_step_of_ne m ho (fun e he => hm ⟨e, he⟩) with
      hsame | ⟨rfl, hgone⟩ | ⟨rfl, hpaused⟩
    · exact ⟨o, hsame, Or.inl rfl⟩
    · refine ⟨_, hgone, ?_⟩
      by_cases hf : o.phase.isFinished = true
      · left
        obtain ⟨request, barrier, registrations, phase⟩ := o
        cases phase with
        | finished result => rfl
        | _ => cases hf
      rw [Bool.not_eq_true] at hf
      by_cases hwaits : ∃ k, t.WaitsFor i k
      · obtain ⟨k, hwaits⟩ := hwaits
        rw [hwaits.stays h.queued, ho] at hgone
        exact Or.inl (Option.some.inj hgone).symm
      · have hfewer := stepsLeft_advance h.queued h.registered ho hf
          fun k hk => hwaits ⟨k, hk⟩
        have hq := advance_queues h.queued hs ha ho
        refine Or.inr ⟨rfl, hfewer, by simpa only [stride, step, ho] using hq,
          fun hplaces => ?_⟩
        cases hphase : o.phase with
        | accepted => exact Or.inl rfl
        | inLine => rw [hphase] at hplaces; cases hplaces
        | fetching id lookup cache =>
          exact Or.inr (by simp only [advance, advancePhase, hphase]; rfl)
        | fetched id lookup cache values =>
          right
          simp only [advance, advancePhase, hphase, finishLookup]
          split <;> rfl
        | finished => rw [hphase] at hf; cases hf
    · refine ⟨_, hpaused, ?_⟩
      have hq := comeToTurn_queues hs ha h.queued.formed (h.queued.placed i o ho)
        (h.queued.merges i o ho)
      rcases t.engine.comeToTurn_phase o with hsame | ⟨action, held, place, wanted, hline, hlt⟩
      · exact Or.inl (by rw [hsame])
      · refine Or.inr ⟨rfl, hlt, by simpa only [stride, step, pause, ho] using hq,
          fun hplaces => ?_⟩
        -- whoever stands at no line and has begun does not come to one
        cases hphase : o.phase with
        | accepted => exact Or.inl rfl
        | inLine => rw [hphase] at hplaces; cases hplaces
        | fetching | fetched | finished =>
          simp only [comeToTurn, hphase] at hline
          cases hline

/-- An operation that was not there before was just accepted. -/
theorem accepted_stride (hx : x.staysOpen = true) (hnone : t.operations[j]? = none)
    (ho' : (t.stride x).operations[j]? = some o') :
    o'.phase = .accepted ∧ o'.barrier = t.engine.pending.last := by
  have hset : ∀ {i c c'}, t.operations[i]? = some c → (t.operations.set i c')[j]? ≠ some o' := by
    intro i c c' hc hset
    rcases getElem?_set_cases hset with ⟨rfl, -⟩ | ⟨-, hold⟩
    · rw [hnone] at hc
      cases hc
    · rw [hnone] at hold
      cases hold
  have hsame : t.operations[j]? ≠ some o' := by
    rw [hnone]
    exact nofun
  cases x with
  | reopened config left clock => cases hx
  | moved m =>
    cases m with
    | submit request timeout =>
      cases hvalid : request.validate t.engine.config timeout with
      | error e =>
        simp only [stride, step, Engine.accept, hvalid] at ho'
        exact absurd ho' hsame
      | ok u =>
        simp only [stride, step, accept_of_validate hvalid] at ho'
        rcases getElem?_concat_cases ho' with ⟨-, hold⟩ | ⟨-, rfl⟩
        · exact absurd hold hsame
        · exact ⟨rfl, rfl⟩
    | advance i =>
      simp only [stride, step] at ho'
      split at ho'
      · exact absurd ho' hsame
      · next hc => exact absurd ho' (hset hc)
    | pause i =>
      simp only [stride, step, pause] at ho'
      split at ho'
      · exact absurd ho' hsame
      · next hc => exact absurd ho' (hset hc)
    | abandon i error =>
      simp only [stride, step] at ho'
      split at ho'
      · exact absurd ho' hsame
      · next hc =>
        split at ho'
        · exact absurd ho' hsame
        · exact absurd ho' (hset hc)
    | _ => exact absurd ho' hsame

/-- Whoever an operation waits for that stayed where it is it has waited for before. -/
theorem WaitsFor.before (hw : (t.stride x).WaitsFor i j) (h : t.Orderly)
    (h' : (t.stride x).Orderly) (hx : x.staysOpen = true) (ho : t.operations[i]? = some o)
    (ho' : (t.stride x).operations[i]? = some o) : t.WaitsFor i j := by
  cases hw with
  | @turn o₁ c' action held place wanted ticket waiting phase other stands ahead =>
    obtain rfl := Option.some.inj (ho'.symm.trans waiting)
    have hplace : place.ticket ∈ (t.engine.lines place.segment).tickets :=
      (h.queued.placed i o ho).mem_tickets (p := place) (by rw [phase]; exact List.mem_cons_self)
    have hlt : ticket < place.ticket :=
      (List.pairwise_cons.mp ((h'.queued.formed place.segment).sorted.sublist ahead)).1 _
        List.mem_cons_self
    have hissued := (h.queued.formed place.segment).issued _ hplace
    cases hc : t.operations[j]? with
    | none =>
      rw [(accepted_stride hx hc other).1] at stands
      cases stands
    | some c =>
      have hstood : ⟨place.segment, ticket⟩ ∈ c.phase.places := by
        obtain ⟨c'', hc'', hgone⟩ := operation_stride h hx hc
        obtain rfl := Option.some.inj (hc''.symm.trans other)
        rcases hgone with rfl | hgone
        · exact stands
        · rcases hgone.queues.fresh stands with hold | hfresh
          · exact hold
          · have hfresh' : (t.engine.lines place.segment).issued < ticket := hfresh
            omega
      have hother := (h.queued.placed j c hc).mem_tickets hstood
      exact .turn ho phase hc hstood ((h.queued.formed place.segment).sublist hother hplace hlt)
  | @earlier o₁ c' name r waiting phase request other unfinished registered live named early =>
    obtain rfl := Option.some.inj (ho'.symm.trans waiting)
    cases hc : t.operations[j]? with
    | none =>
      have hbarrier := (h.regular o (List.mem_of_getElem? ho)).barrier
      have hnew := (accepted_stride hx hc other).2
      have hticket := (h'.registered.numbered j c' other r registered).1
      omega
    | some c =>
      obtain ⟨c'', hc'', hgone⟩ := operation_stride h hx hc
      obtain rfl := Option.some.inj (hc''.symm.trans other)
      have hbefore : c.phase.isFinished = false ∧ r ∈ c.registrations := by
        rcases hgone with rfl | hgone
        · exact ⟨unfinished, registered⟩
        · rw [hgone.same] at registered
          exact ⟨Phase.stepsLeft_pos.mp (Nat.zero_lt_of_lt hgone.fewer), registered⟩
      exact .earlier ho phase request hc hbefore.1 hbefore.2
        (h.registered.live j c hc hbefore.1 r hbefore.2) named early

/-! ## All come to an end -/

/-- How much an operation has before it: those that it waits for, and then its own steps. -/
def outlook (t : Traffic) (i : Nat) : (Nat ×ₗ Nat ×ₗ Nat) ×ₗ Nat :=
  toLex (t.rank i, ((t.operations[i]?).map fun o => o.phase.stepsLeft).getD 0)

/-- The outlook depends on the next number and the operation alone. -/
theorem outlook_eq {t t' : Traffic} (hnext : t'.engine.nextId = t.engine.nextId)
    (ho : t'.operations[i]? = t.operations[i]?) : t'.outlook i = t.outlook i := by
  simp only [outlook, rank, ho, hnext]

/-- Who goes on has less before it, where no segments are added. -/
theorem outlook_lt (h : t.Orderly) (hnext : (t.stride x).engine.nextId = t.engine.nextId)
    (ho : t.operations[i]? = some o) (ho' : (t.stride x).operations[i]? = some o')
    (hgone : Advances t (t.stride x) o o') : (t.stride x).outlook i < t.outlook i := by
  obtain ⟨a, hs, -⟩ := h.outlines
  have hfewer := hgone.fewer
  have hbarrier : o'.barrier = o.barrier := by rw [hgone.same]
  have hplaced := h.queued.placed i o ho
  suffices hrank : (t.stride x).rank i ≤ t.rank i by
    simp only [outlook, Prod.Lex.toLex_lt_toLex, ho, ho', Option.map_some, Option.getD_some]
    rcases lt_or_eq_of_le hrank with hlt | heq
    · exact Or.inl hlt
    · exact Or.inr ⟨heq, hfewer⟩
  have hlow : o'.phase.places = [] → o'.phase ≠ .accepted →
      (t.stride x).rank i ≤ toLex (0, toLex (0, 0)) := by
    intro hplaces hne
    simp only [rank, ho']
    cases hphase : o'.phase with
    | accepted => exact absurd hphase hne
    | inLine => rw [hphase] at hplaces; cases hplaces
    | _ => exact le_refl _
  cases hphase : o.phase with
  | accepted =>
    simp only [rank, ho, hphase, ho']
    cases o'.phase with
    | accepted => rw [hbarrier]
    | _ => exact le_of_lt (Prod.Lex.toLex_lt_toLex.mpr (Or.inl Nat.zero_lt_one))
  | inLine action held place wanted =>
    have hqueues := hgone.queues
    rw [hphase] at hqueues hplaced
    obtain ⟨e, he⟩ := exists_of_mem_tickets hplaced.inLine
    have hthere := hs.numbered he
    simp only [rank, ho, hphase, ho', hnext]
    cases hphase' : o'.phase with
    | inLine action' held' place' wanted' =>
      rw [hphase'] at hqueues
      cases hqueues with
      | stays arrived unfinished places joins placed =>
        have hplaces : place' :: held' = arrived ++ place :: held := places
        cases arrived with
        | nil =>
          obtain ⟨rfl, -⟩ := List.cons.inj hplaces
          exact le_refl _
        | cons p arrived =>
          -- the turn that it has come to is of a younger segment
          obtain ⟨rfl, rfl⟩ := List.cons.inj hplaces
          have htail := (List.pairwise_append.mp placed.order).2.1
          have hyounger : place.segment < place'.segment :=
            (List.pairwise_cons.mp htail).1 _ (List.mem_map.mpr ⟨place,
              List.mem_append_right _ List.mem_cons_self, rfl⟩)
          refine le_of_lt (Prod.Lex.toLex_lt_toLex.mpr (Or.inr ⟨rfl,
            Prod.Lex.toLex_lt_toLex.mpr (Or.inl ?_)⟩))
          exact Nat.sub_lt_sub_left hthere hyounger
    | accepted =>
      rw [hphase'] at hqueues
      cases hqueues with
      | stays arrived unfinished places joins placed =>
        exact absurd places.symm
          (List.append_ne_nil_of_right_ne_nil arrived (List.cons_ne_nil place held))
    | fetching | fetched | finished =>
      refine Prod.Lex.toLex_le_toLex.mpr (Or.inr ⟨rfl, Prod.Lex.toLex_le_toLex.mpr ?_⟩)
      omega
  | fetching id lookup cache =>
    rw [hphase] at hfewer
    have hline := (hgone.line (by rw [hphase]; rfl)).resolve_left fun h => by
      rw [hphase] at h
      cases h
    refine le_of_le_of_eq (hlow hline fun haccepted => ?_) (by simp only [rank, ho, hphase])
    simp [haccepted, Phase.stepsLeft] at hfewer
  | fetched id lookup cache values =>
    rw [hphase] at hfewer
    have hline := (hgone.line (by rw [hphase]; rfl)).resolve_left fun h => by
      rw [hphase] at h
      cases h
    refine le_of_le_of_eq (hlow hline fun haccepted => ?_) (by simp only [rank, ho, hphase])
    simp [haccepted, Phase.stepsLeft] at hfewer
  | finished result =>
    rw [hphase] at hfewer
    exact absurd hfewer (Nat.not_lt_zero _)

/-- An operation that has ended stays as it is. -/
theorem operation_of_finished (h : t.Orderly) (hx : x.staysOpen = true)
    (ho : t.operations[i]? = some o) (hf : o.phase.isFinished = true) :
    (t.stride x).operations[i]? = some o := by
  obtain ⟨o', ho', hgone⟩ := operation_stride h hx ho
  rcases hgone with rfl | hgone
  · exact ho'
  · have hunfinished := Phase.stepsLeft_pos.mp (Nat.zero_lt_of_lt hgone.fewer)
    rw [hf] at hunfinished
    cases hunfinished

section

variable (horderly : ∀ n, (t.course run n).Orderly) (hopen : ∀ n, (run n).staysOpen = true)

include horderly hopen

/-- An operation that has ended stays as it is. -/
theorem operation_course_of_finished {m : Nat} (hm : n ≤ m)
    (ho : (t.course run n).operations[i]? = some o) (hf : o.phase.isFinished = true) :
    (t.course run m).operations[i]? = some o := by
  induction m, hm using Nat.le_induction with
  | base => exact ho
  | succ m hm ih => exact operation_of_finished (horderly m) (hopen m) ih hf

/-- Where no segments are added, every operation comes to its end in a fair run. -/
theorem eventually_finished
    (hnext : ∀ n, (t.course run (n + 1)).engine.nextId = (t.course run n).engine.nextId)
    (hfair : Fair run) (h : (t.course run n).Unfinished i) :
    ∀ᶠ m in atTop, ¬(t.course run m).Unfinished i := by
  induction hrank : (t.course run n).outlook i using WellFoundedLT.induction generalizing n i with
  | ind r ih =>
    obtain ⟨o, ho, hf⟩ := h
    by_contra hnot
    -- it would stay where it is for ever, as it would end if it went on
    have hstays : ∀ m, n ≤ m → (t.course run m).operations[i]? = some o ∧
        (t.course run m).engine.nextId = (t.course run n).engine.nextId := by
      intro m hm
      induction m, hm using Nat.le_induction with
      | base => exact ⟨ho, rfl⟩
      | succ m hm ihm =>
        refine ⟨?_, (hnext m).trans ihm.2⟩
        obtain ⟨o', ho', hgone⟩ := operation_stride (horderly m) (hopen m) ihm.1
        rcases hgone with rfl | hgone
        · exact ho'
        · exfalso
          by_cases hf' : o'.phase.isFinished = true
          · refine hnot (eventually_atTop.mpr ⟨m + 1, fun k hk hunfinished => ?_⟩)
            obtain ⟨c, hc, hcf⟩ := hunfinished
            have hlater := operation_course_of_finished horderly hopen hk ho' hf'
            obtain rfl := Option.some.inj (hlater.symm.trans hc)
            rw [hf'] at hcf
            cases hcf
          · have hlt := outlook_lt (horderly m) (hnext m) ihm.1 ho' hgone
            rw [outlook_eq ihm.2 (ihm.1.trans ho.symm), hrank] at hlt
            exact hnot (ih _ hlt (n := m + 1) ⟨o', ho', by simpa using hf'⟩ rfl)
    have hbefore : ∀ m, n ≤ m → ∀ j, (t.course run m).WaitsFor i j →
        (t.course run n).WaitsFor i j := by
      intro m hm
      induction m, hm using Nat.le_induction with
      | base => exact fun j hw => hw
      | succ m hm ihm =>
        exact fun j hw => ihm j (hw.before (horderly m) (horderly (m + 1)) (hopen m)
          (hstays m hm).1 (hstays (m + 1) (Nat.le_succ_of_le hm)).1)
    -- whoever it waits for is of lower rank, and so comes to an end
    have hfinite : {j | (t.course run n).WaitsFor i j}.Finite := by
      refine (Set.finite_lt_nat (t.course run n).operations.length).subset fun j hw => ?_
      obtain ⟨c, hc, -⟩ := hw.unfinished.2
      exact (List.getElem?_eq_some_iff.mp hc).1
    have hothers : ∀ᶠ m in atTop, ∀ j ∈ {j | (t.course run n).WaitsFor i j},
        ¬(t.course run m).Unfinished j := by
      refine (eventually_all_finite hfinite).mpr fun j hw => ?_
      obtain ⟨a, hs, -⟩ := (horderly n).outlines
      have hlower := hw.rank_lt (horderly n).queued (horderly n).registered hs
      exact ih _ (hrank ▸ Prod.Lex.toLex_lt_toLex.mpr (Or.inl hlower)) hw.unfinished.2 rfl
    -- then it goes on when it is next looked at
    obtain ⟨m, hlook, hended, hm⟩ :=
      ((hfair i).and_eventually (hothers.and (eventually_ge_atTop n))).exists
    obtain ⟨hstay, -⟩ := hstays m hm
    have hfewer := stepsLeft_advance (horderly m).queued (horderly m).registered hstay hf
      fun j hw => hended j (hbefore m hm j hw) hw.unfinished.2
    obtain ⟨hlater, -⟩ := hstays (m + 1) (Nat.le_succ_of_le hm)
    have hgone : (t.course run (m + 1)).operations[i]? =
        some ((t.course run m).engine.advance o).2.1 := by
      obtain ⟨hi, -⟩ := List.getElem?_eq_some_iff.mp hstay
      simp only [course, hlook, stride, step, hstay]
      exact List.getElem?_set_self hi
    rw [← Option.some.inj (hlater.symm.trans hgone)] at hfewer
    exact Nat.lt_irrefl _ hfewer

end

/-! ## After shutting down -/

/-- Unless it is given up, an operation that would change a closed store goes on waiting or finds it
closed. -/
theorem closes_stride (h : t.Orderly) (hc : t.engine.closed = true) (hx : x.staysOpen = true)
    (hne : ∀ e, x ≠ .moved (.abandon i e)) (ho : t.operations[i]? = some o)
    (hchanges : o.request.changes = true)
    (hwaits : o.phase.isFinished = false ∨ o.phase = .finished (.error .storeClosed)) :
    ∃ o', (t.stride x).operations[i]? = some o' ∧ o'.request.changes = true ∧
      (o'.phase.isFinished = false ∨ o'.phase = .finished (.error .storeClosed)) := by
  rcases hwaits with hf | hended
  swap
  · exact ⟨o, operation_of_finished h hx ho (by rw [hended]; rfl), hchanges, Or.inr hended⟩
  cases x with
  | reopened config left clock => cases hx
  | moved m =>
    rcases t.operations_step_of_ne m ho (fun e he => hne e (by rw [he])) with
      hsame | ⟨-, hgone⟩ | ⟨-, hpaused⟩
    · exact ⟨o, hsame, hchanges, Or.inl hf⟩
    · have hwrites := (h.regular o (List.mem_of_getElem? ho)).writes hchanges
      exact ⟨_, hgone, hchanges, advance_of_closed hc hwrites hf⟩
    · exact ⟨_, hpaused, hchanges, Or.inl ((comeToTurn_isFinished t.engine o).trans hf)⟩

/-- Along a run of a closed store an operation that would change it, and is not given up, goes on
waiting or is answered that the store is closed. -/
theorem result_course_of_closed (horderly : ∀ n, (t.course run n).Orderly)
    (hopen : ∀ n, (run n).staysOpen = true) (hclosed : ∀ n, (t.course run n).engine.closed = true)
    (hkept : ∀ m e, n ≤ m → run m ≠ .moved (.abandon i e))
    (ho : (t.course run n).operations[i]? = some o) (hchanges : o.request.changes = true)
    (hf : o.phase.isFinished = false) {m : Nat} (hm : n ≤ m) :
    ((t.course run m).Unfinished i ∧ (t.course run m).result? i = none) ∨
      (t.course run m).result? i = some (.error .storeClosed) := by
  have hwaits : ∃ c, (t.course run m).operations[i]? = some c ∧ c.request.changes = true ∧
      (c.phase.isFinished = false ∨ c.phase = .finished (.error .storeClosed)) := by
    induction m, hm using Nat.le_induction with
    | base => exact ⟨o, ho, hchanges, Or.inl hf⟩
    | succ m hm ih =>
      obtain ⟨c, hc, hcchanges, hcwaits⟩ := ih
      exact closes_stride (horderly m) (hclosed m) (hopen m) (fun e => hkept m e hm) hc hcchanges
        hcwaits
  obtain ⟨c, hc, -, hcf | hended⟩ := hwaits
  · simp only [result?, hc, Option.bind_some]
    exact Or.inl ⟨⟨c, hc, hcf⟩, Phase.result?_eq_none.mpr hcf⟩
  · simp only [result?, hc, Option.bind_some]
    exact Or.inr (Phase.result?_eq_some.mpr hended)

/-- Once a store was shut down it stays as it is, whatever happens and in whatever order operations
go on or are overtaken. The store stays closed, and the names, the segments with their states,
lengths, offsets and bytes, and the bytes of the journal stay what they are; no stride of an operation
touches the journal or the attribute store. An operation that would change the store, begun before or
after, and that is not given up, has no other answer than that the store is closed, and if all are
looked at again and again it does get that answer. If the attribute store took writes when the store
was shut down, no segment has unstored values. -/
theorem closed_course (config : Config) (logged : Bool) (clock : AttributeValue)
    (before : List Stride) (run : Nat → Stride) (hopen : ∀ n, (run n).staysOpen = true) :
    let t := (start config logged clock).along before
    let later := (t.step .shutdown).course run
    (∀ n, (later n).engine.closed = true ∧ (later 0).engine.Resembles (later n).engine ∧
      (later n).engine.log.bytes = (later 0).engine.log.bytes) ∧
    (∀ n, (run n).isStep = true → (later (n + 1)).engine.log = (later n).engine.log ∧
      (later (n + 1)).engine.store = (later n).engine.store) ∧
    (∀ i n o, (later n).operations[i]? = some o → o.request.changes = true →
      o.phase.isFinished = false →
      (∀ m e, n ≤ m → run m ≠ .moved (.abandon i e)) →
      (∀ m, n ≤ m → (later m).result? i = none ∨
        (later m).result? i = some (.error .storeClosed)) ∧
      (Fair run → ∀ᶠ m in atTop, (later m).result? i = some (.error .storeClosed))) ∧
    (t.engine.closed = false → t.engine.store.refusing = false →
      ∀ n, (later n).engine.unstoredCount = 0) := by
  intro t later
  have horderly : ∀ n, (later n).Orderly := by
    intro n
    have halong : later n = (start config logged clock).along
        (before ++ .moved .shutdown :: (List.range n).map run) := by
      rw [along_append]
      exact course_eq_along _ run n
    rw [halong]
    exact orderly_along config logged clock _
  have hremains : ∀ n, (later n).engine.closed = true ∧
      (later 0).engine.Remains (later n).engine := by
    intro n
    induction n with
    | zero => exact ⟨closed_shutdown t.engine, .refl _⟩
    | succ n ih =>
      obtain ⟨a, hs, -⟩ := (horderly n).outlines
      have hstep := (remains_stride hs ih.1 (hopen n)).1
      exact ⟨hstep.closed.trans ih.1, ih.2.trans hstep⟩
  have hsteps : ∀ n, (later n).engine.Remains (later (n + 1)).engine ∧
      ((run n).isStep = true → (later (n + 1)).engine.log = (later n).engine.log ∧
        (later (n + 1)).engine.store = (later n).engine.store) := by
    intro n
    obtain ⟨a, hs, -⟩ := (horderly n).outlines
    exact remains_stride hs (hremains n).1 (hopen n)
  refine ⟨fun n => ⟨(hremains n).1, (hremains n).2.resembles, (hremains n).2.journal⟩,
    fun n => (hsteps n).2, fun i n o ho hchanges hf hkept => ?_, fun hclosed htakes n => ?_⟩
  · have hresult := fun m hm => result_course_of_closed horderly hopen (fun n => (hremains n).1)
      hkept ho hchanges hf (m := m) hm
    refine ⟨fun m hm => (hresult m hm).imp_left And.right, fun hfair => ?_⟩
    have hends := eventually_finished horderly hopen (fun n => (hsteps n).1.resembles.nextId) hfair
      ⟨o, ho, hf⟩
    filter_upwards [hends, eventually_ge_atTop n] with m hended hm
    exact (hresult m hm).resolve_left fun h => hended h.1
  · obtain ⟨rs, rest, left, hstands⟩ := stands_start_along config logged clock before
    have hempty := emptied_shutdown hstands.sound.engine.agrees.outlines hclosed htakes
    exact ((hremains n).2.emptied hempty).unstoredCount

/-- Everybody in turn, again and again. -/
def everybody (n : Nat) : Stride := .moved (.advance n.unpair.1)

/-- Everybody comes up again and again. -/
theorem fair_everybody : Fair everybody :=
  fun i => frequently_atTop.mpr fun n =>
    ⟨Nat.pair i n, Nat.right_le_pair i n, by rw [everybody, Nat.unpair_pair]⟩

/-- A conditional append was overtaken at its turn when the store is shut down. -/
def overtaken : List Stride :=
  [.moved (.submit (.create "a" [.replace ⟨0, 7⟩ 5]) 1), .moved (.advance 0),
    .moved (.submit (.appendAt "a" 0 [1, 2] []) 1), .moved (.pause 1)]

/-- The append is answered that the store is closed, and the segment has nothing unstored. -/
theorem closed_course_of_overtaken :
    let t := (start .standard true 0).along overtaken
    let later := (t.step .shutdown).course everybody
    (∀ᶠ m in atTop, (later m).result? 1 = some (.error .storeClosed)) ∧
      ∀ n, (later n).engine.unstoredCount = 0 := by
  obtain ⟨-, -, hends, hempty⟩ := closed_course .standard true 0 overtaken everybody fun _ => rfl
  refine ⟨(hends 1 0 _ rfl rfl rfl fun m e _ => ?_).2 fair_everybody, hempty rfl rfl⟩
  exact fun h => by cases h

end Traffic

end Segments
