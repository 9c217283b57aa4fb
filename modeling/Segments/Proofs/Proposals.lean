import Segments.Proofs.Agreement

/-!
# What is proposed

`Proposes` lists the changes that an engine has a record for, with all that was checked before. A
record that an agreeing engine proposes is one that its account admits, and every engine that agrees
with the account proposes it.
-/

namespace Segments

/-- The new values that a batch gives a segment, as far as its account says. -/
def SegmentAccount.evaluate (g : SegmentAccount) (updates : List Update) :
    Except SegmentError AttributeValues :=
  match Batch.evaluate g.attributes updates with
  | .error (id, refusal) => .error (.attributeUpdateFailed g.name id refusal.message)
  | .ok values => .ok values

namespace Verdict

variable {α : Type} {check : Except SegmentError α} {accept : α → Verdict}

theorem ofCheck_eq_commit {record : Record} {answer : Answer} :
    ofCheck check accept = .commit record answer ↔
      ∃ v, check = .ok v ∧ accept v = .commit record answer := by
  cases check <;> simp [ofCheck]

theorem ofCheck_eq_idle {answer : Answer} :
    ofCheck check accept = .idle answer ↔ ∃ v, check = .ok v ∧ accept v = .idle answer := by
  cases check <;> simp [ofCheck]

end Verdict

namespace Engine

variable {s : Engine} {a : Account} {action : Action} {record : Record}

/-- An append goes on from its checks when the segment is active and of the expected length. -/
theorem checkAppend_eq_ok {e : Entry} {expected : Option Nat} {u : Unit} :
    checkAppend e expected = .ok u ↔
      e.state = .active ∧ ∀ offset, expected = some offset → offset = e.metadata.length := by
  unfold checkAppend
  cases hw : e.state.requireWritable e.name with
  | error err =>
    have hnot : e.state ≠ .active := by
      rintro hactive
      rw [SegmentState.requireWritable_eq_ok (u := ()) |>.mpr hactive] at hw
      cases hw
    simp [hnot]
  | ok v =>
    have hactive := SegmentState.requireWritable_eq_ok.mp hw
    cases expected with
    | none => simp [hactive]
    | some offset =>
      by_cases hoffset : offset = e.metadata.length <;> simp [hactive, hoffset]

/-- The record that a change is to be made by, with all that was checked before. -/
inductive Proposes (s : Engine) : Action → Record → Prop where
  /-- A name that is free is given to a segment. -/
  | create {name : String} {updates : List Update} {values : AttributeValues}
      (free : s.names.get? name = none)
      (evaluated : s.evaluate (.ofMetadata (.new s.nextId name)) updates = .ok values) :
      Proposes s (.create name updates) (.create s.nextId name (s.withCreationTime values))
  /-- Bytes are appended to an active segment, of the expected length if there is one. -/
  | append {id : SegmentId} {data : Bytes} {updates : List Update} {expected : Option Nat}
      {values : AttributeValues} (active : (s.entry id).state = .active)
      (length : ∀ offset, expected = some offset → offset = (s.entry id).metadata.length)
      (evaluated : s.evaluate (s.entry id) updates = .ok values) :
      Proposes s (.append id data updates expected)
        (.append (s.entry id).id (s.entry id).metadata.length data values)
  /-- Attributes of an active segment change. -/
  | update {name : String} {id : SegmentId} {updates : List Update} {values : AttributeValues}
      (active : (s.entry id).state = .active) (nonempty : updates.isEmpty = false)
      (evaluated : s.evaluate (s.entry id) updates = .ok values) :
      Proposes s (.update name id updates) (.updateAttributes (s.entry id).id values)
  /-- An active segment is sealed at its length. -/
  | sealing {name : String} {id : SegmentId} (active : (s.entry id).state = .active) :
      Proposes s (.sealing name id) (.sealing (s.entry id).id (s.entry id).metadata.length)
  /-- The lowest readable offset rises, at most to the length. -/
  | truncate {name : String} {id : SegmentId} {offset : Nat}
      (readable : (s.entry id).state = .active ∨ (s.entry id).state = .sealed)
      (rises : (s.entry id).metadata.truncationOffset < offset)
      (within : offset ≤ (s.entry id).metadata.length) :
      Proposes s (.truncate name id offset) (.truncate (s.entry id).id offset)
  /-- A segment is deleted by its name. -/
  | delete {name : String} {id : SegmentId} (named : s.names.get? name = some (s.entry id).id)
      (live : (s.entry id).state ≠ .deleted) :
      Proposes s (.delete name id) (.delete (s.entry id).id)
  /-- A sealed segment goes to the end of an active one. -/
  | merge {target source : SegmentId} (active : (s.entry target).state = .active)
      (sealed : (s.entry source).state = .sealed) :
      Proposes s (.merge target source) (.merge (s.entry target).id (s.entry source).id
        (s.entry source).metadata.length (s.entry target).metadata.length)

theorem Proposes.commits (h : s.Proposes action record) :
    ∃ answer, s.propose action = .commit record answer := by
  cases h with
  | create free evaluated =>
    simp [propose, proposeBy, evaluation, proposeCreate, Table.contains, free, evaluated,
      Verdict.ofCheck]
  | append active length evaluated =>
    have hcheck := checkAppend_eq_ok (u := ()).mpr ⟨active, length⟩
    simp [propose, proposeBy, evaluation, proposeAppend, hcheck, evaluated, Verdict.ofCheck]
  | @update name id _ _ active nonempty evaluated =>
    have hcheck : (s.entry id).state.requireWritable name = .ok () :=
      SegmentState.requireWritable_eq_ok.mpr active
    simp [propose, proposeBy, evaluation, proposeUpdate, hcheck, nonempty, evaluated,
      Verdict.ofCheck]
  | @sealing name id active =>
    have hcheck : (s.entry id).state.requireReadable name = .ok () :=
      SegmentState.requireReadable_eq_ok.mpr (Or.inl active)
    have hopen : (s.entry id).state ≠ .sealed := by
      rw [active]
      decide
    simp [propose, proposeBy, proposeSealing, hcheck, hopen, Verdict.ofCheck]
  | @truncate name id offset readable rises within =>
    have hcheck : (s.entry id).metadata.state.requireReadable name = .ok () :=
      SegmentState.requireReadable_eq_ok.mpr readable
    have hbounds : ¬(offset < (s.entry id).metadata.truncationOffset ∨
        (s.entry id).metadata.length < offset) := by omega
    have hother : offset ≠ (s.entry id).metadata.truncationOffset := by omega
    simp [propose, proposeBy, proposeTruncate, hcheck, hbounds, hother, Verdict.ofCheck]
  | delete named live => simp [propose, proposeBy, proposeDelete, named, live]
  | @merge target source active sealed =>
    have htarget : (s.entry target).state.requireWritable (s.entry target).name = .ok () :=
      SegmentState.requireWritable_eq_ok.mpr active
    have hsource : (s.entry source).state.requireReadable (s.entry source).name = .ok () :=
      SegmentState.requireReadable_eq_ok.mpr (Or.inr sealed)
    simp only [propose, proposeBy, proposeMerge, htarget, hsource, if_pos sealed, Verdict.ofCheck]
    exact ⟨_, rfl⟩

theorem proposes_of_commit {answer : Answer} (h : s.propose action = .commit record answer) :
    s.Proposes action record := by
  cases action with
  | create name updates =>
    rw [propose, proposeBy, proposeCreate] at h
    split at h
    · cases h
    · next hfree =>
      obtain ⟨values, hvalues, h⟩ := Verdict.ofCheck_eq_commit.mp h
      rw [Verdict.commit.injEq] at h
      rw [← h.1]
      exact .create (by simpa [Table.contains] using hfree) hvalues
  | append id data updates expected =>
    obtain ⟨u, hcheck, h⟩ := Verdict.ofCheck_eq_commit.mp h
    obtain ⟨values, hvalues, h⟩ := Verdict.ofCheck_eq_commit.mp h
    obtain ⟨hactive, hlength⟩ := checkAppend_eq_ok.mp hcheck
    rw [Verdict.commit.injEq] at h
    rw [← h.1]
    exact .append hactive hlength hvalues
  | update name id updates =>
    obtain ⟨u, hcheck, h⟩ := Verdict.ofCheck_eq_commit.mp h
    split at h
    · cases h
    · next hnonempty =>
      obtain ⟨values, hvalues, h⟩ := Verdict.ofCheck_eq_commit.mp h
      rw [Verdict.commit.injEq] at h
      rw [← h.1]
      exact .update (SegmentState.requireWritable_eq_ok.mp hcheck) (by simpa using hnonempty)
        hvalues
  | sealing name id =>
    obtain ⟨u, hcheck, h⟩ := Verdict.ofCheck_eq_commit.mp h
    split at h
    · cases h
    · next hopen =>
      rw [Verdict.commit.injEq] at h
      rw [← h.1]
      exact .sealing ((SegmentState.requireReadable_eq_ok.mp hcheck).resolve_right hopen)
  | truncate name id offset =>
    obtain ⟨u, hcheck, h⟩ := Verdict.ofCheck_eq_commit.mp h
    split at h
    · cases h
    · next hbounds =>
      split at h
      · cases h
      · next hother =>
        rw [Verdict.commit.injEq] at h
        rw [← h.1]
        exact .truncate (SegmentState.requireReadable_eq_ok.mp hcheck) (by omega) (by omega)
  | delete name id =>
    rw [propose, proposeBy, proposeDelete] at h
    split at h
    · cases h
    · next hnamed =>
      rw [Verdict.commit.injEq] at h
      rw [not_or, not_not] at hnamed
      rw [← h.1]
      exact .delete hnamed.1 hnamed.2
  | merge target source =>
    obtain ⟨u, hcheck, h⟩ := Verdict.ofCheck_eq_commit.mp h
    obtain ⟨u', hcheck', h⟩ := Verdict.ofCheck_eq_commit.mp h
    split at h
    · next hsealed =>
      rw [Verdict.commit.injEq] at h
      rw [← h.1]
      exact .merge (SegmentState.requireWritable_eq_ok.mp hcheck) hsealed
    · cases h

/-- A record is written exactly for the changes that are listed. -/
theorem proposes_iff :
    s.Proposes action record ↔ ∃ answer, s.propose action = .commit record answer :=
  ⟨Proposes.commits, fun ⟨_, h⟩ => proposes_of_commit h⟩

/-- What is proposed can come next, if the account has the names, the next number, and each segment
that can be read. -/
theorem Proposes.admits (hp : s.Proposes action record) (hw : a.WellFormed)
    (hnames : ∀ n, s.names.get? n = a.names n) (hnext : s.nextId = a.nextId)
    (hreadable : ∀ id, (s.entry id).state = .active ∨ (s.entry id).state = .sealed →
      ∃ g, a.segments id = some g ∧ (s.entry id).metadata.id = id ∧ (s.entry id).Depicts g) :
    a.Admits record := by
  cases hp with
  | create free evaluated => exact ⟨hnext, by rw [← hnames, free]⟩
  | append active length evaluated =>
    obtain ⟨g, hg, hown, hd⟩ := hreadable _ (Or.inl active)
    rw [Entry.id, hown]
    exact ⟨g, hg, hd.state.symm.trans active, hd.length.symm⟩
  | update active nonempty evaluated =>
    obtain ⟨g, hg, hown, hd⟩ := hreadable _ (Or.inl active)
    rw [Entry.id, hown]
    exact ⟨g, hg, hd.state.symm.trans active⟩
  | sealing active =>
    obtain ⟨g, hg, hown, hd⟩ := hreadable _ (Or.inl active)
    rw [Entry.id, hown]
    exact ⟨g, hg, hd.state.symm.trans active, hd.length.symm⟩
  | truncate readable rises within =>
    obtain ⟨g, hg, hown, hd⟩ := hreadable _ readable
    rw [Entry.id, hown]
    refine ⟨g, hg, ?_, hd.truncationOffset ▸ rises, hd.length ▸ within⟩
    rw [← hd.state]
    exact readable
  | @delete name id named live =>
    rw [hnames] at named
    obtain ⟨g, hg, -⟩ := hw.name name _ named
    exact ⟨g, hg⟩
  | merge active sealed =>
    obtain ⟨t, ht, hown, hd⟩ := hreadable _ (Or.inl active)
    obtain ⟨u, hu, hown', hd'⟩ := hreadable _ (Or.inr sealed)
    rw [Entry.id, hown, Entry.id, hown']
    exact ⟨t, u, ht, hu, hd.state.symm.trans active, hd'.state.symm.trans sealed,
      hd.length.symm, hd'.length.symm⟩

/-- What an agreeing engine proposes can come next. -/
theorem Agrees.admits (h : s.Agrees a) (hw : a.WellFormed) (hp : s.Proposes action record) :
    a.Admits record :=
  hp.admits hw h.names h.nextId fun _ hr =>
    have ⟨g, hg, _, hown, hd, _⟩ := h.of_readable hr
    ⟨g, hg, hown, hd⟩

/-- Updates are evaluated against the committed values. -/
theorem evaluate_eq {e : Entry} {g : SegmentAccount} {id : SegmentId} (hown : e.metadata.id = id)
    (hname : e.metadata.name = g.name)
    (hc : e.metadata.attributes.Coherent s.store id g.attributes) (updates : List Update) :
    s.evaluate e updates = g.evaluate updates := by
  subst hown
  have hvalue : s.valueOf e = g.attributes := funext fun x => hc.value_eq x
  rw [evaluate, SegmentAccount.evaluate, hvalue]
  cases Batch.evaluate g.attributes updates with
  | error failure => simp only [Entry.name, hname]
  | ok values => rfl

theorem Agrees.evaluate_new (h : s.Agrees a) (name : String) (updates : List Update) :
    s.evaluate (.ofMetadata (.new s.nextId name)) updates =
      (SegmentAccount.created name (a.found s.nextId)).evaluate updates :=
  evaluate_eq rfl rfl (h.fresh s.nextId (Nat.le_refl _) ▸
    AttributeTiers.coherent_valuesOf s.store s.nextId) updates

/-- Two engines that agree with an account have the same of a segment that can be read. -/
theorem Agrees.entry_both {t : Engine} (hs : s.Agrees a) (ht : t.Agrees a) {id : SegmentId}
    (hr : (s.entry id).state = .active ∨ (s.entry id).state = .sealed) :
    ∃ g, (s.entry id).Depicts g ∧ (t.entry id).Depicts g ∧ (s.entry id).id = (t.entry id).id ∧
      ∀ updates, s.evaluate (s.entry id) updates = t.evaluate (t.entry id) updates := by
  obtain ⟨g, hg, he, hown, hd, hc⟩ := hs.of_readable hr
  obtain ⟨e', he', hown', hd', hc'⟩ := (hg ▸ ht.segment id).of_account
  have hm : g.state ≠ .merged := by
    rw [← hd.state]
    rcases hr with hr | hr <;> rw [Entry.state] at hr <;> rw [hr] <;> decide
  rw [entry_eq he']
  refine ⟨g, hd, hd', hown.trans hown'.symm, fun updates => ?_⟩
  rw [evaluate_eq hown hd.name (hc.coherent hm), evaluate_eq hown' hd'.name (hc'.coherent hm)]

/-- Engines that agree with an account propose the same records, at the same time. -/
theorem Agrees.proposes {t : Engine} (hs : s.Agrees a) (ht : t.Agrees a)
    (hclock : s.clock = t.clock) (hw : a.WellFormed)
    (hthere : ∀ name id, action = .delete name id → ∃ g, a.segments id = some g)
    (hp : s.Proposes action record) : t.Proposes action record := by
  cases hp with
  | create free evaluated =>
    have hnext : s.nextId = t.nextId := hs.nextId.trans ht.nextId.symm
    rw [hs.evaluate_new, hnext, ← ht.evaluate_new] at evaluated
    rw [hnext, withCreationTime, hclock, ← withCreationTime]
    exact .create (by rw [ht.names, ← hs.names, free]) evaluated
  | append active length evaluated =>
    obtain ⟨g, hd, hd', hid, heval⟩ := hs.entry_both ht (Or.inl active)
    have hlength := hd.length.trans hd'.length.symm
    rw [hid, hlength]
    refine .append (hd'.state.trans (hd.state.symm.trans active)) (fun offset ho => ?_) ?_
    · rw [length offset ho, hlength]
    · rw [← heval, evaluated]
  | update active nonempty evaluated =>
    obtain ⟨g, hd, hd', hid, heval⟩ := hs.entry_both ht (Or.inl active)
    rw [hid]
    rw [heval] at evaluated
    exact .update (hd'.state.trans (hd.state.symm.trans active)) nonempty evaluated
  | sealing active =>
    obtain ⟨g, hd, hd', hid, -⟩ := hs.entry_both ht (Or.inl active)
    rw [hid, hd.length.trans hd'.length.symm]
    exact .sealing (hd'.state.trans (hd.state.symm.trans active))
  | @truncate name id offset readable rises within =>
    obtain ⟨g, hd, hd', hid, -⟩ := hs.entry_both ht readable
    rw [hid]
    refine .truncate ?_ ?_ ?_
    · rw [Entry.state, hd'.state, ← hd.state]
      exact readable
    · rw [hd'.truncationOffset, ← hd.truncationOffset]
      exact rises
    · rw [hd'.length, ← hd.length]
      exact within
  | @delete name id named live =>
    obtain ⟨g, hg⟩ := hthere name id rfl
    obtain ⟨e, he, hown, hd, -⟩ := (hg ▸ hs.segment id).of_account
    obtain ⟨e', he', hown', hd', -⟩ := (hg ▸ ht.segment id).of_account
    have hid : (s.entry id).id = (t.entry id).id := by
      rw [entry_eq he, entry_eq he', Entry.id, hown, Entry.id, hown']
    rw [hid] at named ⊢
    refine .delete (by rw [ht.names, ← hs.names, named]) ?_
    rw [entry_eq he', Entry.state, hd'.state]
    exact (hw.segment id g hg).state_ne_deleted
  | merge active sealed =>
    obtain ⟨g, hd, hd', hid, -⟩ := hs.entry_both ht (Or.inl active)
    obtain ⟨u, hu, hu', hid', -⟩ := hs.entry_both ht (Or.inr sealed)
    rw [hid, hid', hd.length.trans hd'.length.symm, hu.length.trans hu'.length.symm]
    exact .merge (hd'.state.trans (hd.state.symm.trans active))
      (hu'.state.trans (hu.state.symm.trans sealed))

/-- The changes that there is no need to make, with the answers. -/
inductive Idles (s : Engine) : Action → Answer → Prop where
  /-- No attribute of an active segment is to change. -/
  | update {name : String} {id : SegmentId} {updates : List Update}
      (active : (s.entry id).state = .active) (empty : updates.isEmpty = true) :
      Idles s (.update name id updates) .done
  /-- A segment is sealed already. -/
  | sealing {name : String} {id : SegmentId} (sealed : (s.entry id).state = .sealed) :
      Idles s (.sealing name id) (.length (s.entry id).metadata.length)
  /-- The lowest readable offset stays. -/
  | truncate {name : String} {id : SegmentId}
      (readable : (s.entry id).state = .active ∨ (s.entry id).state = .sealed)
      (within : (s.entry id).metadata.truncationOffset ≤ (s.entry id).metadata.length) :
      Idles s (.truncate name id (s.entry id).metadata.truncationOffset) .done

variable {answer : Answer}

theorem Idles.propose_eq (h : s.Idles action answer) : s.propose action = .idle answer := by
  cases h with
  | @update name id _ active empty =>
    have hcheck : (s.entry id).state.requireWritable name = .ok () :=
      SegmentState.requireWritable_eq_ok.mpr active
    simp [propose, proposeBy, proposeUpdate, hcheck, empty, Verdict.ofCheck]
  | @sealing name id sealed =>
    have hcheck : (s.entry id).state.requireReadable name = .ok () :=
      SegmentState.requireReadable_eq_ok.mpr (Or.inr sealed)
    simp only [propose, proposeBy, proposeSealing, hcheck, if_pos sealed, Verdict.ofCheck]
  | @truncate name id readable within =>
    have hcheck : (s.entry id).metadata.state.requireReadable name = .ok () :=
      SegmentState.requireReadable_eq_ok.mpr readable
    have hbounds : ¬(s.entry id).metadata.length < (s.entry id).metadata.truncationOffset := by
      omega
    simp [propose, proposeBy, proposeTruncate, hcheck, hbounds, Verdict.ofCheck]

theorem idles_of_propose_eq (h : s.propose action = .idle answer) : s.Idles action answer := by
  cases action with
  | create name updates =>
    rw [propose, proposeBy, proposeCreate] at h
    split at h
    · cases h
    · obtain ⟨_, _, h⟩ := Verdict.ofCheck_eq_idle.mp h
      cases h
  | append id data updates expected =>
    obtain ⟨_, _, h⟩ := Verdict.ofCheck_eq_idle.mp h
    obtain ⟨_, _, h⟩ := Verdict.ofCheck_eq_idle.mp h
    cases h
  | update name id updates =>
    obtain ⟨u, hcheck, h⟩ := Verdict.ofCheck_eq_idle.mp h
    split at h
    · next hempty =>
      rw [Verdict.idle.injEq] at h
      rw [← h]
      exact .update (SegmentState.requireWritable_eq_ok.mp hcheck) hempty
    · obtain ⟨_, _, h⟩ := Verdict.ofCheck_eq_idle.mp h
      cases h
  | sealing name id =>
    obtain ⟨u, hcheck, h⟩ := Verdict.ofCheck_eq_idle.mp h
    split at h
    · next hsealed =>
      rw [Verdict.idle.injEq] at h
      rw [← h]
      exact .sealing hsealed
    · cases h
  | truncate name id offset =>
    obtain ⟨u, hcheck, h⟩ := Verdict.ofCheck_eq_idle.mp h
    split at h
    · cases h
    · next hbounds =>
      split at h
      · next hpresent =>
        rw [Verdict.idle.injEq] at h
        rw [← h, hpresent]
        exact .truncate (SegmentState.requireReadable_eq_ok.mp hcheck) (by omega)
      · cases h
  | delete name id =>
    rw [propose, proposeBy, proposeDelete] at h
    split at h <;> cases h
  | merge target source =>
    obtain ⟨_, _, h⟩ := Verdict.ofCheck_eq_idle.mp h
    obtain ⟨_, _, h⟩ := Verdict.ofCheck_eq_idle.mp h
    split at h <;> cases h

/-- There is nothing to do exactly for the changes that are listed. -/
theorem idles_iff : s.Idles action answer ↔ s.propose action = .idle answer :=
  ⟨Idles.propose_eq, idles_of_propose_eq⟩

/-- Engines that agree with an account find the same changes needless. -/
theorem Agrees.idles {t : Engine} (hs : s.Agrees a) (ht : t.Agrees a)
    (hp : s.Idles action answer) : t.Idles action answer := by
  cases hp with
  | update active empty =>
    obtain ⟨g, hd, hd', -⟩ := hs.entry_both ht (Or.inl active)
    exact .update (hd'.state.trans (hd.state.symm.trans active)) empty
  | sealing sealed =>
    obtain ⟨g, hd, hd', -⟩ := hs.entry_both ht (Or.inr sealed)
    rw [hd.length.trans hd'.length.symm]
    exact .sealing (hd'.state.trans (hd.state.symm.trans sealed))
  | truncate readable within =>
    obtain ⟨g, hd, hd', -⟩ := hs.entry_both ht readable
    rw [hd.length.trans hd'.length.symm] at within
    rw [hd.truncationOffset.trans hd'.truncationOffset.symm] at within ⊢
    refine .truncate ?_ within
    rw [Entry.state, hd'.state, ← hd.state]
    exact readable

end Engine

end Segments
