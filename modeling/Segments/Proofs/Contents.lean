import Segments.Proofs.Acknowledged
import Segments.Proofs.History
import Segments.Proofs.Ledger

/-!
# Where the bytes of segments are from

The bytes of a segment are those that acknowledged appends and merges brought into it, in the order
in which they were acknowledged, which is that of the journal. Only a reopening may add to them: if
the last record was not taken and is whole in the journal all the same, the reopened store has it.
An operation that has looked up its segment, or has come to its turn, may be overtaken by any others
before it comes to its check. Whoever appends at an offset learns there whether the segment has that
length.
-/

namespace Segments

/-- The offset that an append of some bytes claims in a segment. -/
def Action.claim? : Action → Option (SegmentId × Nat)
  | .append segment (_ :: _) _ (some offset) => some (segment, offset)
  | _ => none

/-- A claim is made by an append of some bytes. -/
theorem Action.claim?_eq_some {action : Action} {c : SegmentId × Nat}
    (h : action.claim? = some c) :
    ∃ data updates, action = .append c.1 data updates (some c.2) ∧ data ≠ [] := by
  unfold Action.claim? at h
  split at h
  · obtain rfl := Option.some.inj h
    exact ⟨_, _, rfl, List.cons_ne_nil _ _⟩
  · cases h

namespace Engine

variable {s : Engine} {a : Account} {action : Action} {record : Record} {answer : Answer}

/-- An append and a merge always have something to do. -/
theorem transfer?_of_idle (h : s.propose action = .idle answer) : action.transfer? = none := by
  cases idles_iff.mpr h <;> rfl

/-- The record of a change makes its transfer. -/
theorem Outlines.transfer?_of_proposes (h : s.Outlines a) (hp : s.Proposes action record) :
    record.transfer? = action.transfer? := by
  cases hp with
  | append active length evaluated =>
    obtain ⟨g, -, hown, -⟩ := h.of_readable (Or.inl active)
    rw [Entry.id, hown]
    rfl
  | merge active sealed =>
    obtain ⟨t, -, hown, -⟩ := h.of_readable (Or.inl active)
    obtain ⟨u, -, hown', -⟩ := h.of_readable (Or.inr sealed)
    rw [Entry.id, hown, Entry.id, hown']
    rfl
  | _ => rfl

end Engine

namespace Traffic

/-- The change that is acknowledged when something happens; a reopening acknowledges none. -/
def acknowledgedBy (t : Traffic) : Stride → Option Action
  | .moved m => t.acknowledges m
  | .reopened .. => none

/-- The changes that are acknowledged in the course of a history, in order. -/
def acknowledged (t : Traffic) : List Stride → List Action
  | [] => []
  | x :: strides => (t.acknowledgedBy x).toList ++ (t.stride x).acknowledged strides

variable {t : Traffic} {rs new : List Record} {rest : Bytes} {x : Stride} {m : Move}

/-- A move makes the transfers that it acknowledges. -/
theorem Commits.transfers (hc : t.Commits m new) (h : t.engine.Traced rs rest) :
    (t.acknowledges m).toList.filterMap Action.transfer? = new.filterMap Record.transfer? := by
  cases hc.acknowledges with
  | nothing idle =>
    cases ha : t.acknowledges m with
    | none => rfl
    | some action =>
      obtain ⟨s, answer, -, hidle⟩ := idle action ha
      simp [Engine.transfer?_of_idle hidle]
  | change acknowledges alike proposes =>
    have htransfer := (h.outlines.resembles alike.resembles).transfer?_of_proposes proposes
    rw [acknowledges, Option.toList_some, List.filterMap_cons, List.filterMap_cons, htransfer]
    rfl

/-- Whatever happens makes the transfer that is acknowledged then, and a reopening may make one
besides. -/
theorem Brings.transfers (hb : t.Brings x new) (h : t.engine.Traced rs rest) :
    ((t.acknowledgedBy x).toList.filterMap Action.transfer?).Sublist
        (new.filterMap Record.transfer?) ∧
      (new.filterMap Record.transfer?).length ≤
        ((t.acknowledgedBy x).toList.filterMap Action.transfer?).length +
          [x].countP fun x => !x.staysOpen := by
  cases x with
  | moved m =>
    rw [acknowledgedBy, Commits.transfers hb h]
    exact ⟨.refl _, Nat.le_add_right _ _⟩
  | reopened config left clock =>
    exact ⟨List.nil_sublist _, Nat.le_trans (List.length_filterMap_le _ _) hb⟩

/-- In the course of a history the acknowledged transfers are made one after another, and besides
them one for each reopening at most. -/
theorem traced_transfers (h : t.engine.Traced rs rest) (strides : List Stride) :
    ∃ new rest', (t.along strides).engine.Traced (rs ++ new) rest' ∧
      ((t.acknowledged strides).filterMap Action.transfer?).Sublist
        (new.filterMap Record.transfer?) ∧
      (new.filterMap Record.transfer?).length ≤
        ((t.acknowledged strides).filterMap Action.transfer?).length +
          strides.countP fun x => !x.staysOpen := by
  induction strides generalizing t rs rest with
  | nil => exact ⟨[], rest, by rwa [List.append_nil], .refl _, Nat.zero_le _⟩
  | cons x strides ih =>
    obtain ⟨new, rest₁, hstep, hbrings⟩ := traced_stride h x
    obtain ⟨more, rest₂, hlater, hsublist, hlength⟩ := ih hstep
    obtain ⟨hone, hcount⟩ := Brings.transfers hbrings h
    have hsplit : (x :: strides).countP (fun y => !y.staysOpen) =
        [x].countP (fun y => !y.staysOpen) + strides.countP fun y => !y.staysOpen := by
      rw [← List.singleton_append, List.countP_append]
    refine ⟨new ++ more, rest₂, by rwa [← List.append_assoc], ?_, ?_⟩ <;>
      rw [acknowledged, List.filterMap_append, List.filterMap_append]
    · exact hone.append hsublist
    · rw [List.length_append, List.length_append, hsplit]
      omega

/-- What an acknowledged append has done: it found an active segment, of the expected length if
there was one, and left it with its bytes at the end. -/
theorem Commits.appended (hc : t.Commits m new) (h : t.engine.Traced rs rest) {id : SegmentId}
    {data : Bytes} {updates : List Update} {expected : Option Nat}
    (ha : t.acknowledges m = some (.append id data updates expected)) :
    ∃ g g', (Account.after rs).segments id = some g ∧
      (Account.after (rs ++ new)).segments id = some g' ∧
      (∀ offset, expected = some offset → offset = g.length) ∧ g.data.length = g.length ∧
      g'.data = g.data ++ data ∧ g'.length = g.length + data.length := by
  cases hc.acknowledges with
  | nothing idle =>
    obtain ⟨s, answer, -, hidle⟩ := idle _ ha
    cases Engine.transfer?_of_idle hidle
  | @change s action record acknowledges alike proposes =>
    obtain rfl := Option.some.inj (ha.symm.trans acknowledges)
    cases proposes with
    | @append _ _ _ _ values active length evaluated =>
      obtain ⟨g, hg, hown, hd⟩ :=
        (h.outlines.resembles alike.resembles).of_readable (Or.inl active)
      have hgrown : (Account.after (rs ++ [.append (s.entry id).id (s.entry id).metadata.length data
          values])).segments id = some ((g.grown data).taking values) := by
        rw [Account.after_append_singleton, Entry.id, hown]
        simp only [Account.apply, Account.modify, Function.update_self, hg, Option.map_some]
      refine ⟨g, _, hg, hgrown, fun offset ho => by rw [length offset ho, hd.length], ?_, rfl, rfl⟩
      exact (h.wellFormed.segment id g hg).sized (hd.ne_merged (Or.inl active))

/-- A history acknowledges at most one claim of each offset of a segment, none of a segment that is
gone, and none below the length that a segment has already. -/
theorem traced_claims (h : t.engine.Traced rs rest) (strides : List Stride) :
    ((t.acknowledged strides).filterMap Action.claim?).Nodup ∧
      ∀ c ∈ (t.acknowledged strides).filterMap Action.claim?,
        (∃ g, (Account.after rs).segments c.1 = some g ∧ g.length ≤ c.2) ∨
          (Account.after rs).nextId ≤ c.1 := by
  induction strides generalizing t rs rest with
  | nil => exact ⟨List.nodup_nil, nofun⟩
  | cons x strides ih =>
    obtain ⟨new, rest', hstep, hbrings⟩ := traced_stride h x
    obtain ⟨hnodup, hlater⟩ := ih hstep
    have hgrows := Account.grows_after hstep.admitted
    -- a segment does not shrink and does not come again, so later claims are free now
    have hfree : ∀ c ∈ ((t.stride x).acknowledged strides).filterMap Action.claim?,
        (∃ g, (Account.after rs).segments c.1 = some g ∧ g.length ≤ c.2) ∨
          (Account.after rs).nextId ≤ c.1 := by
      intro c hc
      rcases hlater c hc with ⟨g', hg', hle⟩ | hnew
      · refine (hgrows.segment c.1 g' hg').imp ?_ fun hfresh => hfresh
        rintro ⟨g, hg, hgrown⟩
        exact ⟨g, hg, Nat.le_trans hgrown.length hle⟩
      · exact Or.inr (Nat.le_trans hgrows.nextId hnew)
    rw [acknowledged, List.filterMap_append]
    cases hc : (t.acknowledgedBy x).bind Action.claim? with
    | none =>
      have hnil : (t.acknowledgedBy x).toList.filterMap Action.claim? = [] := by
        cases ha : t.acknowledgedBy x with
        | none => rfl
        | some action => simpa [ha] using hc
      rw [hnil, List.nil_append]
      exact ⟨hnodup, hfree⟩
    | some c =>
      obtain ⟨action, ha, hclaim⟩ := Option.bind_eq_some_iff.mp hc
      have hone : (t.acknowledgedBy x).toList.filterMap Action.claim? = [c] := by
        rw [ha]
        simp [hclaim]
      cases x with
      | reopened config left clock => cases ha
      | moved m =>
        obtain ⟨data, updates, rfl, hdata⟩ := Action.claim?_eq_some hclaim
        obtain ⟨g, g', hg, hg', hoffset, -, -, hlength⟩ := Commits.appended hbrings h ha
        have hc2 := hoffset c.2 rfl
        have hpos := List.length_pos_iff.mpr hdata
        rw [hone, List.singleton_append]
        refine ⟨List.nodup_cons.mpr ⟨fun hin => ?_, hnodup⟩, fun c' hc' => ?_⟩
        · rcases hlater c hin with ⟨g₁, hg₁, hle⟩ | hnew
          · obtain rfl := Option.some.inj (hg'.symm.trans hg₁)
            omega
          · exact absurd (hstep.wellFormed.numbered c.1 g' hg') (Nat.not_lt.mpr hnew)
        · rcases List.mem_cons.mp hc' with rfl | hin
          · exact Or.inl ⟨g, hg, Nat.le_of_eq hc2.symm⟩
          · exact hfree c' hin

/-! ## Appends at an offset -/

/-- An append at an offset comes to its check, on an active segment, with conditions that hold and
a journal that takes its record; then it ends. -/
inductive AtCheck (t : Traffic) (i : Nat) (id : SegmentId) (data : Bytes) (offset : Nat) :
    Except SegmentError Answer → Prop where
  /-- It has its turn, and the store is open. -/
  | intro {o : Operation} {updates : List Update} {values : AttributeValues} {n : Nat}
      {result : Except SegmentError Answer} (operation : t.operations[i]? = some o)
      (asked : o.action? t.engine = some (.append id data updates (some offset)))
      (isOpen : t.engine.closed = false) (active : (t.engine.entry id).state = .active)
      (conditions : t.engine.evaluate (t.engine.entry id) updates = .ok values)
      (accepts : (t.engine.log.append
        (.append id (t.engine.entry id).metadata.length data values)).2 = .ok n)
      (ends : (t.engine.advance o).2.1.phase = .finished result) : AtCheck t i id data offset result

namespace AtCheck

variable {i : Nat} {id : SegmentId} {data : Bytes} {offset : Nat}
  {result : Except SegmentError Answer} {answer : Answer}

/-- An append at an offset that comes to its check succeeds exactly when the segment has that
length. -/
theorem succeeds_iff {found : SegmentId → AttributeId → AttributeValue}
    (hc : t.AtCheck i id data offset result) (h : t.Sound rs rest found) :
    (∃ answer, result = .ok answer) ↔ (t.engine.entry id).metadata.length = offset := by
  cases hc with
  | @intro o updates values n _ operation asked isOpen active conditions accepts ends =>
    obtain ⟨s, halike, -, rfl⟩ := (t.engine.advancePhase_goes o).executed asked isOpen ends
    have hsound := (h.engine.alike halike).sound
    constructor
    · rintro ⟨answer, hanswer⟩
      rcases hsound.execute (.append id data updates (some offset)) with
        ⟨record, answer', hp, -⟩ | ⟨hidle, -⟩
      · cases Engine.proposes_iff.mpr ⟨answer', hp⟩ with
        | append active length evaluated =>
          rw [length offset rfl, (halike.entry_alike id).length]
      · cases Engine.transfer?_of_idle (hidle answer hanswer)
    · rintro rfl
      obtain ⟨g, -, -, hown, -⟩ := h.engine.agrees.of_readable (Or.inl active)
      have hproposes : t.engine.Proposes
          (.append id data updates (some (t.engine.entry id).metadata.length)) _ :=
        .append active (fun _ ho => (Option.some.inj ho).symm) conditions
      obtain ⟨answer, hp⟩ := Engine.proposes_iff.mp (h.engine.agrees.proposes hsound.agrees
        halike.clock.symm h.engine.wellFormed (fun _ _ hd => by cases hd) hproposes)
      rw [Entry.id, hown] at hp
      rw [← halike.log] at accepts
      exact ⟨answer, Engine.execute_of_commit hp accepts⟩

/-- The bytes of an append at an offset are then at that offset. -/
theorem occupies (hc : t.AtCheck i id data offset (.ok answer)) (h : t.engine.Traced rs rest) :
    ∃ e, (t.step (.advance i)).engine.entries.get? id = some e ∧
      e.metadata.length = offset + data.length ∧ (e.data.drop offset).take data.length = data := by
  cases hc with
  | @intro o updates _ _ _ operation asked _ _ _ _ ends =>
    have ha : t.acknowledges (.advance i) = some (.append id data updates (some offset)) := by
      simp only [acknowledges, operation, ends, asked]
    obtain ⟨new, rest', htraced, hbrings⟩ := traced_stride h (.moved (.advance i))
    have hcommits : t.Commits (.advance i) new := hbrings
    obtain ⟨g, g', -, hg', hoffset, hsized, hdata, hlength⟩ := hcommits.appended h ha
    obtain ⟨e, he, -, hd⟩ := htraced.outlines.of_account hg'
    have hstart := hoffset offset rfl
    refine ⟨e, he, by rw [hd.length, hlength, ← hstart], ?_⟩
    rw [hd.data, hdata, hstart, ← hsized, List.drop_left, List.take_length]

end AtCheck

/-- In every state that a store can come to, whatever operations have overtaken others and however
often it was opened again, what is acknowledged is what was asked for, and the bytes of a segment
that is there and was not merged away are those that were brought into it, in the order of the
journal. While a store stays open these are brought by the acknowledged appends and merges; a
reopening may add one that was not acknowledged, but loses none. An append at an offset that comes
to its check succeeds exactly when that is the length, and at each offset at most one with bytes
ever does. -/
theorem acknowledged_along (config : Config) (logged : Bool) (clock : AttributeValue)
    (strides : List Stride) :
    let t := (start config logged clock).along strides
    let done := (start config logged clock).acknowledged strides
    (∀ i action, t.acknowledges (.advance i) = some action →
      ∃ o, t.operations[i]? = some o ∧ o.request.Means action) ∧
    (∃ brought : List Transfer,
      (∀ id e, t.engine.live? id = some e → e.state ≠ .merged →
        e.data = Transfer.contents brought id ∧ e.metadata.length = e.data.length) ∧
      ((∀ x ∈ strides, x.staysOpen = true) → brought = done.filterMap Action.transfer?) ∧
      (done.filterMap Action.transfer?).Sublist brought ∧
      brought.length ≤ (done.filterMap Action.transfer?).length +
        strides.countP (fun x => !x.staysOpen) ∧
      ∃ more, more.length ≤ 1 ∧
        t.engine.log.records.filterMap Record.transfer? = brought ++ more) ∧
    (∀ i id data offset result, t.AtCheck i id data offset result →
      ((∃ answer, result = .ok answer) ↔ (t.engine.entry id).metadata.length = offset) ∧
      ∀ answer, result = .ok answer → ∃ e, (t.step (.advance i)).engine.entries.get? id = some e ∧
        e.metadata.length = offset + data.length ∧
        (e.data.drop offset).take data.length = data) ∧
    (done.filterMap Action.claim?).Nodup := by
  have hstart := traced_start config logged clock
  obtain ⟨rs, rest, htraced, hsublist, hlength⟩ := traced_transfers hstart strides
  obtain ⟨rs', rest', left, hstands⟩ := stands_start_along config logged clock strides
  rw [List.nil_append] at htraced
  intro t done
  refine ⟨fun i action ha => ?_, ⟨rs.filterMap Record.transfer?, fun id e hl hm => ?_,
    fun hopen => ?_, hsublist, hlength, ?_⟩, fun i id data offset result hc => ?_,
    (traced_claims hstart strides).1⟩
  · obtain ⟨o, ho, hasked⟩ := acknowledges_eq_some ha
    exact ⟨o, ho, (hstands.sound.valid o (List.mem_of_getElem? ho)).means hasked⟩
  · obtain ⟨g, hg, -, -, hd⟩ := htraced.outlines.of_live hl
    have hm' : g.state ≠ .merged := by
      rw [← hd.state]
      exact hm
    rw [hd.length, hd.data]
    exact ⟨(Account.sums_after htraced.admitted).data id g (.there hg hm'),
      ((htraced.wellFormed.segment id g hg).sized hm').symm⟩
  · have hnone : strides.countP (fun x => !x.staysOpen) = 0 :=
      List.countP_eq_zero.mpr fun x hx => by simp [hopen x hx]
    rw [hnone] at hlength
    exact (hsublist.eq_of_length_le hlength).symm
  · obtain ⟨new, torn, hnew, -, hframable, htorn, hbytes⟩ := htraced.framed
    refine ⟨new.filterMap Record.transfer?,
      Nat.le_trans (List.length_filterMap_le _ _) hnew, ?_⟩
    rw [OperationLog.records_of_bytes hframable hbytes htorn, List.filterMap_append]
  · refine ⟨hc.succeeds_iff hstands.sound, ?_⟩
    rintro answer rfl
    exact hc.occupies htraced

/-- Two appends at the same offset have looked up their segment and have come to its turn, one
behind the other. -/
def race : List Stride := [.moved (.submit (.create "a" []) 1), .moved (.advance 0),
  .moved (.submit (.appendAt "a" 0 [7] []) 1), .moved (.submit (.appendAt "a" 0 [8] []) 1),
  .moved (.pause 1), .moved (.pause 2)]

/-- The first one succeeds when it comes to its check, and the other one finds another length. -/
theorem acknowledged_along_of_race :
    let t := (start .standard false 0).along race
    (∃ answer, t.AtCheck 1 1 [7] 0 (.ok answer)) ∧ (t.engine.entry 1).metadata.length = 0 ∧
    (∃ e, (t.step (.advance 1)).engine.entries.get? 1 = some e ∧ e.metadata.length = 1 ∧
      (e.data.drop 0).take 1 = [7]) ∧
    (t.run [.advance 2, .advance 1, .advance 2]).result? 2 =
      some (.error (.badOffset "a" 0 (.length 1))) := by
  intro t
  have hstate : (t.operations[1]?).bind (Operation.action? t.engine) =
      some (.append 1 [7] [] (some 0)) := by decide +kernel
  have hdone : t.acknowledges (.advance 1) = some (.append 1 [7] [] (some 0)) := by decide +kernel
  have hlost : (t.run [.advance 2, .advance 1, .advance 2]).result? 2 =
      some (.error (.badOffset "a" 0 (.length 1))) := by decide +kernel
  obtain ⟨o, ho, ha⟩ := Option.bind_eq_some_iff.mp hstate
  have hends : ∃ answer, (t.engine.advance o).2.1.phase = .finished (.ok answer) := by
    simp only [acknowledges, ho] at hdone
    split at hdone
    · next answer hphase => exact ⟨answer, hphase⟩
    · cases hdone
  obtain ⟨answer, hphase⟩ := hends
  have haccepts : (t.engine.log.append
      (.append 1 (t.engine.entry 1).metadata.length [7] [])).2.toOption.isSome = true := by
    decide +kernel
  cases hlog : (t.engine.log.append (.append 1 (t.engine.entry 1).metadata.length [7] [])).2 with
  | error e =>
    rw [hlog] at haccepts
    cases haccepts
  | ok n =>
    have hcheck : t.AtCheck 1 1 [7] 0 (.ok answer) :=
      .intro ho ha (by decide +kernel) (by decide +kernel) rfl hlog hphase
    obtain ⟨hiff, hbytes⟩ := (acknowledged_along .standard false 0 race).2.2.1 1 1 [7] 0 _ hcheck
    exact ⟨⟨answer, hcheck⟩, hiff.mp ⟨answer, rfl⟩, hbytes answer rfl, hlost⟩

end Traffic

end Segments
