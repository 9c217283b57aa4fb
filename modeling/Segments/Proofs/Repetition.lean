import Segments.Proofs.Calls

/-!
# A call that is made again

A call for a change fails, finds nothing to do, or commits one record. A call that has not failed
comes to the same end on another store with the same account, if the journal there takes everything.
-/

namespace Segments.Engine

variable {s s' t t' : Engine} {a : Account} {rs new : List Record} {rest : Bytes}
  {request : Request} {action : Action} {record : Record} {answer : Answer}
  {result : Except SegmentError Answer}

/-- A call changes neither the configuration nor whether the store is open, and it does no harm to
the device of the journal. -/
theorem Called.frame (h : s.Called request s' result) :
    s'.config = s.config ∧ s'.closed = s.closed ∧ (s.log.Safe → s'.log.Safe) := by
  cases h with
  | fails e alike why =>
    refine ⟨alike.config, alike.closed, fun hsafe => ?_⟩
    rwa [alike.log]
  | @executes s₁ _ action valid asked alike after =>
    obtain ⟨hconfig, hclosed, hlog⟩ := (s₁.executes action).frame
    refine ⟨after.config.trans (hconfig.trans alike.config),
      after.closed.trans (hclosed.trans alike.closed), fun hsafe => ?_⟩
    rw [← alike.log] at hsafe
    rw [after.log]
    rcases hlog with hlog | ⟨record, hlog⟩ <;> rw [hlog]
    · exact hsafe
    · exact hsafe.append record

/-- A name stands for the same segment in all engines that agree with an account. -/
theorem Agrees.map_id_resolve? (h : s.Agrees a) (hw : a.WellFormed) (name : String) :
    (s.resolve? name).map Entry.id = a.names name := by
  rw [resolve?, h.names]
  cases hn : a.names name with
  | none => rfl
  | some id =>
    obtain ⟨g, hg, -⟩ := hw.name name id hn
    obtain ⟨e, hlive, -, hown, -⟩ := h.live hw hg
    simp only [hlive, Option.map_some, Entry.id, hown]

/-- A request asks all engines that agree with an account for the same change. -/
theorem Agrees.action?_eq (hs : s.Agrees a) (ht : t.Agrees a) (hw : a.WellFormed)
    (request : Request) : request.action? s = request.action? t := by
  have hsame : ∀ name, (s.resolve? name).map Entry.id = (t.resolve? name).map Entry.id :=
    fun name => (hs.map_id_resolve? hw name).trans (ht.map_id_resolve? hw name).symm
  have hmake : ∀ name (make : SegmentId → Action),
      ((s.resolve? name).map fun e => make e.id) = (t.resolve? name).map fun e => make e.id := by
    intro name make
    have hmap := congrArg (Option.map make) (hsame name)
    rwa [Option.map_map, Option.map_map] at hmap
  cases request with
  | create name updates => rfl
  | append name data updates => exact hmake name fun id => .append id data updates none
  | appendAt name offset data updates =>
    exact hmake name fun id => .append id data updates (some offset)
  | update name updates => exact hmake name fun id => .update name id updates
  | sealing name => exact hmake name fun id => .sealing name id
  | delete name => exact hmake name fun id => .delete name id
  | truncate name offset => exact hmake name fun id => .truncate name id offset
  | merge target source =>
    have htarget := hsame target
    have hsource := hsame source
    simp only [Request.action?]
    revert htarget hsource
    cases s.resolve? target <;> cases t.resolve? target <;> cases s.resolve? source <;>
      cases t.resolve? source <;> simp +contextual
  | lookup name ids cache => rfl
  | read name offset maxLength => rfl
  | info name wait => rfl

/-- A segment that is asked to be deleted is there. -/
theorem Agrees.there_of_action? (h : s.Agrees a) (ha : request.action? s = some action)
    (name : String) (id : SegmentId) (hd : action = .delete name id) :
    ∃ g, a.segments id = some g := by
  subst hd
  cases request with
  | delete name' =>
    obtain ⟨e, he, hid⟩ := Option.map_eq_some_iff.mp ha
    obtain ⟨g, -, hg, -⟩ := h.of_resolve (resolve_of_resolve? he)
    rw [Action.delete.injEq] at hid
    exact ⟨g, hid.2 ▸ hg⟩
  | merge target source =>
    rw [Request.action?] at ha
    split at ha <;> cases ha
  | create name updates => cases ha
  | lookup name ids cache => cases ha
  | read name offset maxLength => cases ha
  | info name wait => cases ha
  | _ =>
    obtain ⟨_, _, hid⟩ := Option.map_eq_some_iff.mp ha
    cases hid

/-- How a call for a change ends, with the record that it commits. -/
inductive Outcome (s : Engine) (request : Request) (rs : List Record) (rest : Bytes) (s' : Engine) :
    List Record → Except SegmentError Answer → Prop where
  /-- It fails, and nothing is committed. -/
  | failed {rest' : Bytes} (e : SegmentError) (continues : s.Continues rs rest s' rs rest') :
      Outcome s request rs rest s' [] (.error e)
  /-- There was nothing to do. -/
  | idle {rest' : Bytes} {action : Action} {answer : Answer}
      (valid : request.validate s.config Scheduler.patience = .ok ())
      (asked : request.action? s = some action) (idles : s.Idles action answer)
      (continues : s.Continues rs rest s' rs rest') : Outcome s request rs rest s' [] (.ok answer)
  /-- A record is committed. -/
  | committed {action : Action} {record : Record} {answer : Answer}
      (valid : request.validate s.config Scheduler.patience = .ok ())
      (asked : request.action? s = some action) (proposes : s.Proposes action record)
      (continues : s.Continues rs rest s' (rs ++ [record]) []) :
      Outcome s request rs rest s' [record] (.ok answer)

theorem Outcome.continues (h : s.Outcome request rs rest s' new result) :
    ∃ rest', s.Continues rs rest s' (rs ++ new) rest' := by
  cases h with
  | failed e continues => exact ⟨_, by rwa [List.append_nil]⟩
  | idle valid asked idles continues => exact ⟨_, by rwa [List.append_nil]⟩
  | committed valid asked proposes continues => exact ⟨_, continues⟩

/-- Every call for a change ends in one of these ways. -/
theorem Sound.called (h : s.Sound rs rest) (hc : s.Called request s' result) :
    ∃ new, s.Outcome request rs rest s' new result := by
  cases hc with
  | fails e alike why => exact ⟨[], .failed e (h.alike alike)⟩
  | @executes s₁ _ action valid asked alike after =>
    have hbefore := h.alike alike
    rcases hbefore.sound.execute action with
      ⟨record, answer, hp, hresult, hcont⟩ | ⟨hidle, rest', hcont⟩
    · have hproposes := hbefore.sound.agrees.proposes h.agrees alike.clock h.wellFormed
        (h.agrees.there_of_action? asked) (proposes_iff.mpr ⟨answer, hp⟩)
      rw [hresult]
      exact ⟨[record], .committed valid asked hproposes
        ((hbefore.trans hcont).trans (hcont.sound.alike after))⟩
    · have hafter := (hbefore.trans hcont).trans (hcont.sound.alike after)
      refine ⟨[], ?_⟩
      cases hresult : (s₁.execute action).2.2 with
      | error e => exact .failed e hafter
      | ok answer =>
        have hidles := hbefore.sound.agrees.idles h.agrees (idles_iff.mpr (hidle answer hresult))
        exact .idle valid asked hidles hafter

theorem execute_of_idle (h : s.propose action = .idle answer) :
    (s.execute action).2.2 = .ok answer := by
  simp only [Engine.execute_eq, h]

/-- A change that is needless changes nothing. -/
theorem Sound.execute_of_idles (h : s.Sound rs []) (hsafe : s.log.Safe)
    (hi : s.Idles action answer) : (s.execute action).2.2 = .ok answer ∧
      s.Continues rs [] (s.execute action).1 rs [] := by
  have hp := idles_iff.mp hi
  refine ⟨execute_of_idle hp, ?_⟩
  rcases h.execute action with ⟨record, answer', hcommit, -⟩ | ⟨-, rest', hcont⟩
  · rw [hp] at hcommit
    cases hcommit
  · have hlog : (s.execute action).1.log = s.log := by
      simp only [Engine.execute_eq, hp]
      exact (Alike.touchConsulted s action).log
    rwa [hcont.sound.holds.rest_eq_nil (hlog ▸ hsafe)] at hcont

/-- A change with a record is made when the journal takes everything. -/
theorem Sound.execute_of_proposes (h : s.Sound rs []) (hsafe : s.log.Safe)
    (hr : record.Framable) (hp : s.Proposes action record) :
    (∃ answer, (s.execute action).2.2 = .ok answer) ∧
      s.Continues rs [] (s.execute action).1 (rs ++ [record]) [] := by
  obtain ⟨answer, hcommit⟩ := proposes_iff.mp hp
  obtain ⟨n, hlog⟩ := hsafe.append_eq_ok hr
  have hok := execute_of_commit hcommit hlog
  refine ⟨⟨answer, hok⟩, ?_⟩
  rcases h.execute action with ⟨record', answer', hcommit', -, hcont⟩ | ⟨hidle, -⟩
  · rw [hcommit, Verdict.commit.injEq] at hcommit'
    rwa [hcommit'.1]
  · rw [hidle answer hok] at hcommit
    cases hcommit

/-- The change of a call that has not failed is asked for and passes its checks on every store with
the same account and configuration, so the call makes it there. -/
theorem Called.executed (hc : t.Called request t' result) (hs : s.Agrees a) (ht : t.Agrees a)
    (hw : a.WellFormed) (hconfig : t.config = s.config)
    (hvalid : request.validate s.config Scheduler.patience = .ok ())
    (hasked : request.action? s = some action) :
    ∃ t₁, t.Alike t₁ ∧ (t₁.execute action).1.Alike t' ∧ result = (t₁.execute action).2.2 := by
  rw [hs.action?_eq ht hw] at hasked
  rw [← hconfig] at hvalid
  cases hc with
  | fails e alike why =>
    rcases why with hinvalid | hnone
    · exact absurd hvalid hinvalid
    · rw [hasked] at hnone
      cases hnone
  | executes valid asked alike after =>
    obtain rfl := Option.some.inj (hasked.symm.trans asked)
    exact ⟨_, alike, after, rfl⟩

/-- A call that has not failed succeeds again, and commits the same. -/
theorem Outcome.repeats (ho : s.Outcome request rs rest s' new (.ok answer)) (hs : s.Sound rs rest)
    (ht : t.Sound rs []) (hsafe : t.log.Safe) (hconfig : t.config = s.config)
    (hclock : s.clock = t.clock) (hc : t.Called request t' result) :
    (∃ answer', result = .ok answer') ∧ t.Continues rs [] t' (rs ++ new) [] := by
  cases ho with
  | @idle _ action answer valid asked idles continues =>
    obtain ⟨t₁, halike, hafter, rfl⟩ :=
      hc.executed hs.agrees ht.agrees hs.wellFormed hconfig valid asked
    have hbefore := ht.alike halike
    obtain ⟨hok, hcont⟩ := hbefore.sound.execute_of_idles (halike.log ▸ hsafe)
      (hs.agrees.idles hbefore.sound.agrees idles)
    rw [List.append_nil]
    exact ⟨⟨_, hok⟩, (hbefore.trans hcont).trans (hcont.sound.alike hafter)⟩
  | @committed action record answer valid asked proposes continues =>
    obtain ⟨t₁, halike, hafter, rfl⟩ :=
      hc.executed hs.agrees ht.agrees hs.wellFormed hconfig valid asked
    have hbefore := ht.alike halike
    have hproposes := hs.agrees.proposes hbefore.sound.agrees
      (hclock.trans halike.clock.symm) hs.wellFormed (hs.agrees.there_of_action? asked) proposes
    have hframable := continues.sound.holds.framable record (by simp)
    obtain ⟨hok, hcont⟩ := hbefore.sound.execute_of_proposes (halike.log ▸ hsafe) hframable
      hproposes
    exact ⟨hok, (hbefore.trans hcont).trans (hcont.sound.alike hafter)⟩

end Segments.Engine
