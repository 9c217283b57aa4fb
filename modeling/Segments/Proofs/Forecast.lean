import Segments.Proofs.Failure
import Segments.Proofs.Framing
import Segments.Proofs.Ledger
import Segments.Trial.Agreement

/-!
# What a model foretells

A model describes what the journal says of a segment, but for the creation time. Then it foretells
every verdict on a change of the segment: what is refused and how, what is needless, and that it
goes on to describe the segment when a record is committed.
-/

namespace Segments

/-- A batch has one new value for each update. -/
theorem Batch.length_of_evaluate {current : AttributeId → AttributeValue} {updates : List Update}
    {values : AttributeValues} (h : Batch.evaluate current updates = .ok values) :
    values.length = updates.length := by
  induction updates generalizing values with
  | nil => cases h; rfl
  | cons u rest ih =>
    rw [Batch.evaluate] at h
    split at h
    · cases h
    · split at h
      · cases h
      · next hrest =>
        cases h
        exact congrArg (· + 1) (ih hrest)

namespace SegmentAction

/-- Whether an action is one that the model follows: it leaves the creation time alone, and does not
truncate beyond the end. -/
def Modelled : SegmentAction → Prop
  | append _ updates | update updates => ∀ u ∈ updates, u.id ≠ .creationTime
  | truncate percent => percent ≤ 100
  | _ => True

instance (action : SegmentAction) : Decidable action.Modelled := by
  cases action <;> unfold Modelled <;> infer_instance

/-- How much an action adds to the length of a record, at most. -/
def weight : SegmentAction → Nat
  | append data updates => data.length + 64 * updates.length
  | appendAt _ data => data.length
  | update updates => 64 * updates.length
  | _ => 0

end SegmentAction

namespace SegmentModel

/-- Whether the record of an action is sure to have a frame: its payload is announced in four bytes,
and the length of the segment is written in eight. -/
def Light (m : SegmentModel) (action : SegmentAction) : Prop :=
  m.length < Bytes.capacity 8 ∧ 256 + action.weight < Bytes.capacity 4

instance (m : SegmentModel) (action : SegmentAction) : Decidable (m.Light action) :=
  inferInstanceAs (Decidable (_ ∧ _))

/-- The change of a segment that an action asks for in the state of the model. -/
def change (m : SegmentModel) (name : String) (id : SegmentId) : SegmentAction → Action
  | .append data updates => .append id data updates none
  | .appendAt skew data => .append id data [] (some (m.skewedOffset skew))
  | .update updates => .update name id updates
  | .truncate percent => .truncate name id (m.percentOffset percent)
  | .sealing => .sealing name id

/-- A model describes what the journal says of a segment, but for the creation time. -/
structure Describes (m : SegmentModel) (g : SegmentAccount) : Prop where
  /-- The segment is sealed if the model is, and active otherwise. -/
  state : g.state = if m.sealed then .sealed else .active
  /-- The length. -/
  length : g.length = m.length
  /-- The lowest readable offset. -/
  truncationOffset : g.truncationOffset = m.truncationOffset
  /-- The bytes. -/
  data : g.data = m.data
  /-- The attribute values. -/
  values : ∀ x, x ≠ .creationTime → g.attributes x = m.value x
  /-- A read can begin at the lowest readable offset. -/
  readable : m.truncationOffset ≤ Request.maxOffset

/-- A verdict on a change of a segment is what a model says, which comes after it; a record has a
frame if it fits. -/
inductive Foretells (m : SegmentModel) (id : SegmentId) (g : SegmentAccount)
    (after : SegmentModel × Outcome) (fits : Prop) : Verdict → Prop where
  /-- The change is refused. -/
  | refused {e : SegmentError} (known : Outcome.ofError? e = some after.2) (same : after.1 = m) :
      Foretells m id g after fits (.refuse e)
  /-- The change is needless. -/
  | needless {answer : Answer} (done : after.2 = .done) (same : after.1 = m) :
      Foretells m id g after fits (.idle answer)
  /-- The change is committed. -/
  | committed {record : Record} {answer : Answer} (f : SegmentAccount → SegmentAccount)
      (done : after.2 = .done) (applies : ∀ a : Account, a.apply record = a.modify id f)
      (describes : after.1.Describes (f g)) (framable : fits → record.Framable) :
      Foretells m id g after fits (.commit record answer)

variable {m : SegmentModel} {g : SegmentAccount}

theorem describes_created (name : String) (clock : AttributeValue) :
    empty.Describes ((SegmentAccount.created name).taking [(.creationTime, clock)]) where
  state := rfl
  length := rfl
  truncationOffset := rfl
  data := rfl
  values x hx := by
    have hother : Function.update noValues .creationTime clock x = noValues x :=
      Function.update_of_ne hx clock noValues
    exact hother
  readable := Nat.zero_le _

/-- Values that are set in the model are overlaid. -/
theorem value_foldl_insert (m : SegmentModel) (values : AttributeValues) (x : AttributeId) :
    ({ m with attributes := values.foldl (fun t v => t.insert v.1 v.2) m.attributes } :
      SegmentModel).value x = overlaid m.value values x := by
  induction values generalizing m with
  | nil => rfl
  | cons v values ih =>
    have hfirst : ({ m with attributes := m.attributes.insert v.1 v.2 } : SegmentModel).value =
        Function.update m.value v.1 v.2 := by
      funext y
      rw [Function.update_apply, value, Table.get?_insert]
      split <;> rfl
    have hrest := ih { m with attributes := m.attributes.insert v.1 v.2 }
    rw [hfirst] at hrest
    exact hrest

namespace Describes

/-- The segment can be read. -/
theorem readable_state (h : m.Describes g) : g.state = .active ∨ g.state = .sealed := by
  rw [h.state]
  cases m.sealed
  · exact Or.inl rfl
  · exact Or.inr rfl

/-- A batch that leaves the creation time alone gives the segment the values that it gives the
model. -/
theorem evaluate (h : m.Describes g) {updates : List Update}
    (hu : ∀ u ∈ updates, u.id ≠ .creationTime) :
    Batch.evaluate g.attributes updates = Batch.evaluate m.value updates :=
  Batch.evaluate_congr fun u hin _ => h.values u.id (hu u hin)

/-- The same values are taken by the segment and by the model. -/
theorem taking (h : m.Describes g) (values : AttributeValues) :
    ({ m with attributes := values.foldl (fun t v => t.insert v.1 v.2) m.attributes } :
      SegmentModel).Describes (g.taking values) where
  state := h.state
  length := h.length
  truncationOffset := h.truncationOffset
  data := h.data
  values x hx := by
    rw [value_foldl_insert]
    exact overlaid_congr fun _ => h.values x hx
  readable := h.readable

/-- The same bytes are appended to the segment and to the model. -/
theorem grown (h : m.Describes g) (data : Bytes) :
    ({ m with data := m.data ++ data } : SegmentModel).Describes (g.grown data) where
  state := h.state
  length := by
    simp only [SegmentAccount.grown, SegmentModel.length, List.length_append]
    rw [h.length, SegmentModel.length]
  truncationOffset := h.truncationOffset
  data := congrArg (· ++ data) h.data
  values := h.values
  readable := h.readable

end Describes

variable {s : Engine} {e : Entry} {name : String} {id : SegmentId}

/-- An entry shows a segment that a model describes. -/
structure Meets (m : SegmentModel) (s : Engine) (e : Entry) (id : SegmentId) (g : SegmentAccount) :
    Prop where
  /-- It is the entry of the segment. -/
  entry : s.entries.get? id = some e
  /-- It has its number. -/
  own : e.id = id
  /-- It shows what the journal says of it. -/
  depicts : e.Depicts g
  /-- Its tiers agree on the committed values. -/
  coherent : e.metadata.attributes.Coherent s.store id g.attributes
  /-- The model describes that. -/
  describes : m.Describes g

namespace Meets

theorem state (h : m.Meets s e id g) :
    e.state = if m.sealed then .sealed else .active := h.depicts.state.trans h.describes.state

theorem requireWritable (h : m.Meets s e id g) (segment : String) :
    e.state.requireWritable segment =
      if m.sealed then .error (.segmentSealed segment) else .ok () := by
  rw [h.state]
  cases m.sealed <;> rfl

theorem requireReadable (h : m.Meets s e id g) (segment : String) :
    e.state.requireReadable segment = .ok () := by
  rw [h.state]
  cases m.sealed <;> rfl

theorem length (h : m.Meets s e id g) : e.metadata.length = m.length :=
  h.depicts.length.trans h.describes.length

/-- A batch that leaves the creation time alone has the end that the model says. -/
theorem evaluate (h : m.Meets s e id g) {updates : List Update}
    (hu : ∀ u ∈ updates, u.id ≠ .creationTime) :
    s.evaluate e updates =
      match Batch.evaluate m.value updates with
      | .error (x, refusal) => .error (.attributeUpdateFailed g.name x refusal.message)
      | .ok values => .ok values := by
  have hsame := h.describes.evaluate hu
  rw [Engine.evaluate_eq h.own h.depicts.name h.coherent]
  cases hbatch : Batch.evaluate m.value updates with
  | error failure =>
    obtain ⟨x, refusal⟩ := failure
    simp only [SegmentAccount.evaluate, hsame, hbatch]
  | ok values => simp only [SegmentAccount.evaluate, hsame, hbatch]

/-- What is checked before the updates of an append are looked at. -/
theorem checkAppend (h : m.Meets s e id g) (expected : Option Nat) :
    Engine.checkAppend e expected =
      if m.sealed then .error (.segmentSealed e.name)
      else if expected.any (· ≠ m.length) then
        .error (.badOffset e.name (expected.getD 0) (.length m.length))
      else .ok () := by
  unfold Engine.checkAppend
  rw [h.requireWritable, h.length]
  cases m.sealed with
  | true => rfl
  | false =>
    cases expected with
    | none => rfl
    | some offset => by_cases hoffset : offset = m.length <;> simp [hoffset]

/-- The verdict on an append. -/
theorem foretells_append (h : m.Meets s e id g) {data : Bytes} {updates : List Update}
    {expected : Option Nat} (hu : ∀ u ∈ updates, u.id ≠ .creationTime)
    (hid : id < Bytes.capacity 8) :
    m.Foretells id g (m.append expected data updates) (m.length < Bytes.capacity 8 ∧
      256 + (data.length + 64 * updates.length) < Bytes.capacity 4)
      (Engine.proposeAppend s.evaluation e data updates expected) := by
  have hevaluates : s.evaluation.values e updates = s.evaluate e updates := rfl
  rw [Engine.proposeAppend, h.checkAppend, hevaluates, h.evaluate hu, SegmentModel.append]
  cases m.sealed with
  | true => exact .refused rfl rfl
  | false =>
    cases expected.any (· ≠ m.length) with
    | true => exact .refused rfl rfl
    | false =>
      rw [updateAll]
      cases hvalues : Batch.evaluate m.value updates with
      | error failure => exact .refused rfl rfl
      | ok values =>
        refine .committed (fun g => (g.grown data).taking values) rfl (fun a => ?_)
          ((h.describes.grown data).taking values) fun hfits => ?_
        · rw [h.own]
          rfl
        · obtain ⟨hlength, hweight⟩ := hfits
          rw [h.own, h.length]
          refine Record.framable_of_weight ?_ ?_
          · simp [Record.values, hid, hlength]
          · simpa [Record.values, FieldValue.weight, Batch.length_of_evaluate hvalues] using hweight

/-- The verdict on a change of attributes. -/
theorem foretells_update (h : m.Meets s e id g) {updates : List Update}
    (hu : ∀ u ∈ updates, u.id ≠ .creationTime) (hid : id < Bytes.capacity 8) :
    m.Foretells id g (m.apply (.update updates)) (256 + 64 * updates.length < Bytes.capacity 4)
      (Engine.proposeUpdate s.evaluation name e updates) := by
  have hevaluates : s.evaluation.values e updates = s.evaluate e updates := rfl
  rw [Engine.proposeUpdate, h.requireWritable, hevaluates, h.evaluate hu, SegmentModel.apply]
  cases m.sealed with
  | true => exact .refused rfl rfl
  | false =>
    cases updates with
    | nil => exact .needless rfl rfl
    | cons u rest =>
      simp only [Bool.false_eq_true, ↓reduceIte, updateAll]
      cases hvalues : Batch.evaluate m.value (u :: rest) with
      | error failure => exact .refused rfl rfl
      | ok values =>
        refine .committed (fun g => g.taking values) rfl (fun a => ?_) (h.describes.taking values)
          fun hweight => ?_
        · rw [h.own]
          rfl
        · rw [h.own]
          refine Record.framable_of_weight ?_ ?_
          · simp [Record.values, hid]
          · simpa [Record.values, FieldValue.weight, Batch.length_of_evaluate hvalues] using hweight

/-- The verdict on a truncation to an offset that is not beyond the end. -/
theorem foretells_truncate (h : m.Meets s e id g) {percent : Nat} (hpercent : percent ≤ 100)
    (hoffset : m.percentOffset percent ≤ Request.maxOffset) (hid : id < Bytes.capacity 8) :
    m.Foretells id g (m.apply (.truncate percent)) True
      (Engine.proposeTruncate name e (m.percentOffset percent)) := by
  have hwithin : m.percentOffset percent ≤ m.length := by
    refine Nat.div_le_of_le_mul ?_
    rw [Nat.mul_comm 100]
    exact Nat.mul_le_mul_left _ hpercent
  have hpresent : e.metadata.truncationOffset = m.truncationOffset :=
    h.depicts.truncationOffset.trans h.describes.truncationOffset
  have hreadable : e.metadata.state.requireReadable name = .ok () := h.requireReadable name
  have hbeyond : ¬m.length < m.percentOffset percent := Nat.not_lt.mpr hwithin
  simp only [Engine.proposeTruncate, hreadable, hpresent, h.length, hbeyond, or_false,
    Verdict.ofCheck, SegmentModel.apply]
  by_cases hbelow : m.percentOffset percent < m.truncationOffset
  · rw [if_pos hbelow, if_pos hbelow]
    exact .refused rfl rfl
  · rw [if_neg hbelow, if_neg hbelow]
    by_cases hsame : m.percentOffset percent = m.truncationOffset
    · rw [if_pos hsame, hsame]
      exact .needless rfl rfl
    · rw [if_neg hsame]
      refine .committed (fun g => { g with truncationOffset := m.percentOffset percent }) rfl
        (fun a => ?_) ⟨h.describes.state, h.describes.length, rfl, h.describes.data,
          h.describes.values, hoffset⟩ fun _ => ?_
      · rw [h.own]
        rfl
      · have hlast : Request.maxOffset < Bytes.capacity 8 := by decide
        have hnumber := Nat.lt_of_le_of_lt hoffset hlast
        rw [h.own]
        exact Record.framable_of_numbers (by simp [Record.values, hid, hnumber]) rfl

/-- The verdict on a sealing. -/
theorem foretells_sealing (h : m.Meets s e id g) (hid : id < Bytes.capacity 8) :
    m.Foretells id g (m.apply .sealing) (m.length < Bytes.capacity 8)
      (Engine.proposeSealing name e) := by
  rw [Engine.proposeSealing, h.requireReadable, h.state, h.length]
  cases hsealed : m.sealed with
  | true =>
    refine .needless rfl ?_
    rw [SegmentModel.apply, ← hsealed]
  | false =>
    refine .committed (fun g => { g with state := .sealed }) rfl (fun a => ?_)
      ⟨rfl, h.describes.length, h.describes.truncationOffset, h.describes.data, h.describes.values,
        h.describes.readable⟩ fun hlength => ?_
    · rw [h.own]
      rfl
    · rw [h.own]
      exact Record.framable_of_numbers (by simp [Record.values, hid, hlength]) rfl

end Meets

theorem Foretells.mono {after : SegmentModel × Outcome} {fits fits' : Prop} {verdict : Verdict}
    (h : m.Foretells id g after fits verdict) (hfits : fits' → fits) :
    m.Foretells id g after fits' verdict := by
  cases h with
  | refused known same => exact .refused known same
  | needless done same => exact .needless done same
  | committed f done applies describes framable =>
    exact .committed f done applies describes fun h => framable (hfits h)

/-- A model foretells the verdict on every action that it follows. -/
theorem Meets.foretells (h : m.Meets s e id g) (action : SegmentAction) (hm : action.Modelled)
    (hoffset : ∀ offset, m.offset? action = some offset → offset ≤ Request.maxOffset)
    (hid : id < Bytes.capacity 8) :
    m.Foretells id g (m.apply action) (m.Light action) (s.propose (m.change name id action)) := by
  have hentry : s.entry id = e := Engine.entry_eq h.entry
  cases action with
  | append data updates =>
    subst hentry
    exact h.foretells_append hm hid
  | appendAt skew data =>
    subst hentry
    have hnone : ∀ u ∈ ([] : List Update), u.id ≠ .creationTime := nofun
    exact h.foretells_append hnone hid
  | update updates =>
    subst hentry
    exact (h.foretells_update hm hid).mono And.right
  | truncate percent =>
    subst hentry
    exact (h.foretells_truncate hm (hoffset _ rfl) hid).mono fun _ => trivial
  | sealing =>
    subst hentry
    exact (h.foretells_sealing hid).mono And.left

end SegmentModel

end Segments
