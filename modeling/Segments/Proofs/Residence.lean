import Segments.Proofs.Execution

/-!
# Values on the move

Evicting, trimming and writing through move attribute values between the tiers of a segment and
commit nothing: an agreeing engine follows with the same account. So does one whose store starts
or stops refusing writes.
-/

namespace Segments.Engine

variable {s s' : Engine} {a : Account} {P : SegmentId → AttributeId → Prop}
  {earlier : AttributeStore}

/-- Only the tiers of one segment changed, in a way that keeps them coherent. -/
structure Retiered (s s' : Engine) (a : Account) (id : SegmentId) (e e' : Entry) : Prop where
  /-- The entry that changed. -/
  entry : s.entries.get? id = some e
  /-- It is the only one. -/
  changed : ChangedAt s s' id e'
  /-- It has the same number. -/
  own : e'.metadata.id = e.metadata.id
  /-- It is at the same stage of life. -/
  state : e'.metadata.state = e.metadata.state
  /-- It shows what it has shown. -/
  depicts : ∀ g, e.Depicts g → e'.Depicts g
  /-- Its tiers go on. -/
  tiers : e.metadata.attributes.Precedes e'.metadata.attributes
  /-- No value comes to wait for the store. -/
  unstored : ∀ x, e.metadata.attributes.unstored.get? x = none →
    e'.metadata.attributes.unstored.get? x = none
  /-- Its tiers agree on the committed values. -/
  coherent : ∀ g, a.segments id = some g → g.state ≠ .merged →
    e.metadata.attributes.Coherent s.store id g.attributes →
    e'.metadata.attributes.Coherent s'.store id g.attributes
  /-- If nothing of a segment that was merged away was in memory, nothing is. -/
  resident : e.metadata.state = .merged → (∀ x, e.metadata.attributes.resident? x = none) →
    ∀ x, e'.metadata.attributes.resident? x = none
  /-- The names are what they were. -/
  names : s'.names = s.names

/-- An engine in which only tiers changed follows with the same account. -/
theorem Agrees.retiered (h : s.Agrees a) {id : SegmentId} {e e' : Entry}
    (hr : Retiered s s' a id e e') : s.Follows a s' a := by
  have hlength : e.metadata.length ≤ e'.metadata.length :=
    Nat.le_of_eq (hr.depicts ⟨e.metadata.name, e.metadata.state, e.metadata.mergedInto,
      e.metadata.length, e.metadata.truncationOffset, e.data, noValues⟩
      ⟨rfl, rfl, rfl, rfl, rfl, rfl⟩).length.symm
  refine h.changedAt (a.segments id) hr.entry hr.changed ?_ (.of_same hlength hr.tiers)
    (Function.update_eq_self id a.segments).symm (fun n => by rw [hr.names, h.names]) rfl rfl
  have hshows := hr.entry ▸ h.segment id
  have hcoherent := hr.coherent
  revert hcoherent hshows
  generalize a.segments id = g?
  intro hshows hcoherent
  cases hshows with
  | gone own deleted unstored =>
    exact .gone (hr.own.trans own) (hr.state.trans deleted) fun x => hr.unstored x (unstored x)
  | present own depicts carries =>
    exact .present (hr.own.trans own) (hr.depicts _ depicts)
      ⟨fun hm => hcoherent _ rfl hm (carries.coherent hm),
        fun hm => hr.resident (depicts.state.trans hm) (carries.released hm)⟩

/-- Drops the least recently used values of a segment from memory. -/
def trim (s : Engine) (id : SegmentId) (max : Nat) : Engine :=
  s.modifyEntry id fun e => { e with metadata := { e.metadata with
    attributes := (e.metadata.attributes.trim max).1 } }

theorem depicts_retiered {e : Entry} (t : AttributeTiers) {g : SegmentAccount}
    (hd : e.Depicts g) :
    ({ e with metadata := { e.metadata with attributes := t } } : Entry).Depicts g :=
  ⟨hd.name, hd.state, hd.mergedInto, hd.length, hd.truncationOffset, hd.data⟩

theorem Agrees.trim (h : s.Agrees a) (id : SegmentId) (max : Nat) :
    s.Follows a (s.trim id max) a := by
  cases he : s.entries.get? id with
  | none =>
    have halike : s.Alike (s.trim id max) :=
      Alike.modifyEntry s id fun e he' => by rw [he] at he'; cases he'
    exact halike.follows h
  | some e =>
    refine h.retiered ⟨he, .modifyEntry he _, rfl, rfl,
      fun _ => depicts_retiered _, ⟨Nat.le_refl _, fun _ _ hx => hx⟩, fun _ hx => hx,
      fun _ _ _ hc => hc.trim max, fun _ hr x => ?_, rfl⟩
    obtain ⟨hpeek, hun⟩ := Option.or_eq_none_iff.mp (hr x)
    refine Option.or_eq_none_iff.mpr ⟨?_, hun⟩
    rw [Option.eq_none_iff_forall_ne_some]
    intro v hv
    rw [AttributeCache.peek_of_peek_trim hv] at hpeek
    cases hpeek

theorem Tidy.trim (h : s.Tidy P earlier) (id : SegmentId) (max : Nat) :
    (s.trim id max).Tidy P earlier :=
  h.modifyEntry id fun _ he => he

theorem Agrees.writeThrough (h : s.Agrees a) (id : SegmentId) :
    s.Follows a (s.writeThrough id).1 a := by
  unfold Engine.writeThrough
  cases he : s.entries.get? id with
  | none => exact (Alike.refl s).follows h
  | some e =>
    have hm := ChangedAt.modifyEntry he fun e' => { e' with metadata := { e'.metadata with
      attributes := (e.metadata.attributes.writeThrough s.store id e.name).1 } }
    refine h.retiered ⟨he, ⟨hm.entries, fun j hj x => ?_, rfl⟩, rfl, rfl,
      fun _ => depicts_retiered _, ?_, fun x hx => ?_, fun _ _ _ hc => hc.writeThrough e.name,
      fun _ hr x => ?_, rfl⟩
    · exact AttributeTiers.writeThrough_get?_of_ne _ _ hj _ x
    · exact AttributeTiers.precedes_writeThrough _ _ _ _
    · exact (AttributeTiers.precedes_writeThrough _ _ _ _).unstored
        (AttributeTiers.epoch_writeThrough _ _ _ _) x hx
    · obtain ⟨hpeek, hun⟩ := Option.or_eq_none_iff.mp (hr x)
      refine Option.or_eq_none_iff.mpr ⟨?_, ?_⟩
      · rcases AttributeTiers.writeThrough_cases e.metadata.attributes s.store id e.name with
          ⟨ht, -⟩ | ⟨ht, -, -⟩ <;> simp only [ht] <;> exact hpeek
      · exact (AttributeTiers.precedes_writeThrough _ _ _ _).unstored
          (AttributeTiers.epoch_writeThrough _ _ _ _) x hun

theorem Tidy.writeThrough (h : s.Tidy P earlier) (id : SegmentId) :
    (s.writeThrough id).1.Tidy P earlier := by
  unfold Engine.writeThrough
  cases he : s.entries.get? id with
  | none => exact h
  | some e =>
    have hwritten := (h.waits id e he).writeThrough h.made e.name
    exact ⟨(h.modifyEntry id (f := fun e' => { e' with metadata := { e'.metadata with
      attributes := (e.metadata.attributes.writeThrough s.store id e.name).1 } })
      fun _ _ => hwritten.1).waits, hwritten.2⟩

/-- A live segment that a name stands for. -/
theorem resolve_eq_ok {name : String} {e : Entry} (hr : s.resolve name = .ok e) :
    ∃ id, s.names.get? name = some id ∧ s.live? id = some e := by
  unfold resolve resolve? at hr
  cases hn : s.names.get? name with
  | none => simp [hn] at hr
  | some id =>
    cases hl : s.live? id with
    | none => simp [hn, hl] at hr
    | some e' =>
      simp only [hn, hl, Except.ok.injEq] at hr
      exact ⟨id, rfl, hr ▸ hl⟩

/-- A name stands for a segment with an account. -/
theorem Agrees.of_resolve (h : s.Agrees a) {name : String} {e : Entry}
    (hr : s.resolve name = .ok e) :
    ∃ g, a.names name = some e.metadata.id ∧ a.segments e.metadata.id = some g ∧
      s.entries.get? e.metadata.id = some e ∧ e.Depicts g ∧
      e.Carries s.store e.metadata.id g := by
  obtain ⟨id, hn, hl⟩ := resolve_eq_ok hr
  obtain ⟨g, hg, he, rfl, hd, hc⟩ := h.of_live hl
  exact ⟨g, by rw [← h.names, hn], hg, he, hd, hc⟩

theorem Agrees.evict (h : s.Agrees a) (name : String) : s.Follows a (s.evict name).1 a := by
  unfold Engine.evict
  cases hr : s.resolve name with
  | error e => exact (Alike.refl s).follows h
  | ok e =>
    obtain ⟨g, -, -, he, -, -⟩ := h.of_resolve hr
    let evicted : Entry := { e with metadata := { e.metadata with
      attributes := e.metadata.attributes.evict.1
      evictionEpoch := e.metadata.evictionEpoch + 1 } }.publish
    have hchanged : ChangedAt s { s with entries := s.entries.insert e.metadata.id evicted }
        e.metadata.id evicted :=
      ⟨fun j => Table.get?_insert _ _ _ _, fun _ _ _ => rfl, rfl⟩
    refine h.retiered ⟨he, hchanged, rfl, rfl,
      fun _ hd => ⟨hd.name, hd.state, hd.mergedInto, hd.length, hd.truncationOffset, hd.data⟩,
      ⟨Nat.le_succ _, fun _ _ hx => hx⟩, fun _ hx => hx, fun _ _ _ hc => hc.evict,
      fun _ hres x => ?_, rfl⟩
    obtain ⟨hpeek, hun⟩ := Option.or_eq_none_iff.mp (hres x)
    refine Option.or_eq_none_iff.mpr ⟨?_, hun⟩
    change e.metadata.attributes.cache.clearExtended.peek x = none
    rw [AttributeCache.peek_clearExtended, hpeek]
    simp

theorem Tidy.evict (h : s.Tidy P earlier) (ha : s.Agrees a) (name : String) :
    (s.evict name).1.Tidy P earlier := by
  unfold Engine.evict
  cases hr : s.resolve name with
  | error e => exact h
  | ok e =>
    obtain ⟨g, -, -, he, -, -⟩ := ha.of_resolve hr
    refine ⟨fun j e' he' => ?_, h.made⟩
    change (s.entries.insert e.metadata.id _).get? j = some e' at he'
    rw [Table.get?_insert] at he'
    split at he'
    · next hj =>
      obtain rfl := Option.some.inj he'
      rw [hj]
      exact h.waits _ e he
    · exact h.waits j e' he'

/-- Whether the store takes writes does not matter to what it holds. -/
theorem Agrees.withRefusing (h : s.Agrees a) (refusing : Bool) :
    s.Follows a { s with store := { s.store with refusing } } a :=
  ⟨⟨fun id => (h.segment id).congr_store fun _ _ _ _ _ => rfl, h.names, h.nextId, h.numbered,
    h.fresh⟩, fun _ e he => ⟨e, he, .refl e _⟩⟩

end Segments.Engine
