import Segments.Proofs.Log
import Segments.Proofs.Stored

/-!
# Sound engines

An engine is sound when its journal has the frames of some records, which came one after another,
and what it has is what their account says. Making a change keeps it sound: either its record is
added on both sides, or nothing but the end of the journal has changed.
-/

namespace Segments.Engine

/-- What an engine has is what the records in its journal say, over an attribute store in which some
values were found. -/
structure Sound (s : Engine) (rs : List Record) (rest : Bytes)
    (found : SegmentId → AttributeId → AttributeValue := fun _ => noValues) : Prop where
  /-- The records came one after another. -/
  admitted : (Account.start found).AdmitsAll rs
  /-- The engine agrees with their account. -/
  agrees : s.Agrees (.after rs found)
  /-- The journal has their frames. -/
  holds : s.log.Holds rs rest

/-- A sound engine goes on to another, perhaps with more records. -/
structure Continues (s : Engine) (rs : List Record) (rest : Bytes) (s' : Engine)
    (rs' : List Record) (rest' : Bytes)
    (found : SegmentId → AttributeId → AttributeValue := fun _ => noValues) : Prop where
  /-- The other is sound too. -/
  sound : s'.Sound rs' rest' found
  /-- The entries go on. -/
  precedes : s.Precedes (.after rs found) s' (.after rs' found)
  /-- No flush has failed on the way, if flushes do not fail. -/
  flushed : s.log.Flushed rest → s'.log.Flushed rest'
  /-- What waits for the attribute store and what made it is still what records commit. -/
  tidy {earlier : AttributeStore} : s.Tidy (Record.Storable rs) earlier →
    s'.Tidy (Record.Storable rs') earlier

variable {s s' s'' : Engine} {rs rs' rs'' : List Record} {rest rest' rest'' : Bytes}
  {found : SegmentId → AttributeId → AttributeValue}

/-- The account of a sound engine is well-formed. -/
theorem Sound.wellFormed (h : s.Sound rs rest found) : (Account.after rs found).WellFormed :=
  Account.wellFormed_after h.admitted

/-- A sound engine goes on to itself. -/
theorem Sound.refl (h : s.Sound rs rest found) : s.Continues rs rest s rs rest found :=
  ⟨h, .refl s _, fun hf => hf, fun ht => ht⟩

/-- A sound engine goes on twice. -/
theorem Continues.trans (h : s.Continues rs rest s' rs' rest' found)
    (h' : s'.Continues rs' rest' s'' rs'' rest'' found) :
    s.Continues rs rest s'' rs'' rest'' found :=
  ⟨h'.sound, h.precedes.trans h'.precedes, fun hf => h'.flushed (h.flushed hf),
    fun ht => h'.tidy (h.tidy ht)⟩

/-- A sound engine goes on to one that follows with the same journal. -/
theorem Sound.follows (h : s.Sound rs rest found)
    (hf : s.Follows (.after rs found) s' (.after rs found)) (hlog : s'.log = s.log)
    (htidy : ∀ {earlier : AttributeStore} P, s.Tidy P earlier → s'.Tidy P earlier) :
    s.Continues rs rest s' rs rest found :=
  ⟨⟨h.admitted, hf.agrees, hlog ▸ h.holds⟩, hf.precedes, fun hr => hlog ▸ hr, htidy _⟩

/-- A sound engine goes on to one that is alike. -/
theorem Sound.alike (h : s.Sound rs rest found) (ha : s.Alike s') :
    s.Continues rs rest s' rs rest found :=
  h.follows (ha.follows h.agrees) ha.log fun _ ht => ht.alike ha

/-- Only the name that stands for a segment deletes it. -/
theorem names_of_proposes_delete {action : Action} {id : SegmentId}
    (h : s.Proposes action (.delete id)) : s.names.get? action.callerName = some id := by
  cases h with
  | delete named live => exact named

/-- Enacting a record leaves the journal. -/
@[simp] theorem enact_log (s : Engine) (callerName : String) (record : Record) :
    (s.enact callerName record).1.log = s.log := by
  cases record <;> simp only [enact, dropStored_fst] <;> rfl

/-- Enacting a record leaves the configuration. -/
@[simp] theorem enact_config (s : Engine) (callerName : String) (record : Record) :
    (s.enact callerName record).1.config = s.config := by
  cases record <;> simp only [enact, dropStored_fst] <;> rfl

/-- Enacting a record leaves the store open. -/
@[simp] theorem enact_closed (s : Engine) (callerName : String) (record : Record) :
    (s.enact callerName record).1.closed = s.closed := by
  cases record <;> simp only [enact, dropStored_fst] <;> rfl

/-- All that making a change can do, with its result. -/
inductive Executes (s : Engine) (action : Action) : Engine → Except SegmentError Answer → Prop where
  /-- It is refused. -/
  | refused {e : SegmentError} (proposed : s.propose action = .refuse e) :
      Executes s action (s.touchConsulted action) (.error e)
  /-- There is nothing to do. -/
  | idles {answer : Answer} (proposed : s.propose action = .idle answer) :
      Executes s action (s.touchConsulted action) (.ok answer)
  /-- The journal fails to take its record. -/
  | fails {record : Record} {answer : Answer} {log : OperationLog} {e : SegmentError}
      (proposed : s.propose action = .commit record answer)
      (appended : (s.touchConsulted action).log.append record = (log, .error e)) :
      Executes s action { s.touchConsulted action with log } (.error e)
  /-- Its record is taken and applied. -/
  | commits {record : Record} {answer : Answer} {log : OperationLog} {n : Nat}
      (proposed : s.propose action = .commit record answer)
      (appended : (s.touchConsulted action).log.append record = (log, .ok n)) :
      Executes s action
        (({ s.touchConsulted action with log } : Engine).enact action.callerName record).1
        (.ok answer)

/-- Every change is one of those. -/
theorem executes (s : Engine) (action : Action) :
    s.Executes action (s.execute action).1 (s.execute action).2.2 := by
  cases hp : s.propose action with
  | refuse e => simpa only [Engine.execute_eq, hp] using Executes.refused hp
  | idle answer => simpa only [Engine.execute_eq, hp] using Executes.idles hp
  | commit record answer =>
    simp only [Engine.execute_eq, hp]
    cases happend : (s.touchConsulted action).log.append record with
    | mk log result =>
      cases result with
      | error e => exact .fails hp happend
      | ok n => exact .commits hp happend

/-- A change leaves the configuration, keeps the store open, and touches the journal only by
appending. -/
theorem Executes.frame {action : Action} {result : Except SegmentError Answer}
    (h : s.Executes action s' result) : s'.config = s.config ∧ s'.closed = s.closed ∧
      (s'.log = s.log ∨ ∃ record, s'.log = (s.log.append record).1) := by
  have halike := Alike.touchConsulted s action
  cases h with
  | refused proposed => exact ⟨halike.config, halike.closed, Or.inl halike.log⟩
  | idles proposed => exact ⟨halike.config, halike.closed, Or.inl halike.log⟩
  | @fails record answer log e proposed appended =>
    rw [halike.log] at appended
    exact ⟨halike.config, halike.closed, Or.inr ⟨record, by rw [appended]⟩⟩
  | @commits record answer log n proposed appended =>
    rw [halike.log] at appended
    simp only [enact_config, enact_closed, enact_log]
    exact ⟨halike.config, halike.closed, Or.inr ⟨record, by rw [appended]⟩⟩

/-- The engine over a journal to which something was appended. -/
theorem Agrees.withLog {a : Account} (h : s.Agrees a) (log : OperationLog) :
    ({ s with log } : Engine).Agrees a :=
  ⟨h.segment, h.names, h.nextId, h.numbered, h.fresh⟩

/-- What waits and what is stored do not depend on the journal. -/
theorem Tidy.withLog {P : SegmentId → AttributeId → Prop} {earlier : AttributeStore}
    (h : s.Tidy P earlier) (log : OperationLog) :
    ({ s with log } : Engine).Tidy P earlier := ⟨h.waits, h.made⟩

/-- A change is made when the journal takes its record. -/
theorem execute_of_commit {action : Action} {record : Record} {answer : Answer} {n : Nat}
    (hp : s.propose action = .commit record answer)
    (hlog : (s.log.append record).2 = .ok n) : (s.execute action).2.2 = .ok answer := by
  rw [← (Alike.touchConsulted s action).log] at hlog
  simp only [Engine.execute_eq, hp]
  revert hlog
  generalize (s.touchConsulted action).log.append record = appended
  obtain ⟨log, result⟩ := appended
  rintro rfl
  rfl

/-- Making a change adds its record on both sides, or changes nothing but the end of the
journal. -/
theorem Sound.execute (h : s.Sound rs rest found) (action : Action) :
    (∃ record answer, s.propose action = .commit record answer ∧
      (s.execute action).2.2 = .ok answer ∧
      s.Continues rs rest (s.execute action).1 (rs ++ [record]) [] found) ∨
    ((∀ answer, (s.execute action).2.2 = .ok answer → s.propose action = .idle answer) ∧
      ∃ rest', s.Continues rs rest (s.execute action).1 rs rest' found) := by
  have htouched := h.alike (Alike.touchConsulted s action)
  have hexecutes := s.executes action
  generalize (s.execute action).1 = s', (s.execute action).2.2 = result at hexecutes ⊢
  cases hexecutes with
  | refused proposed => exact Or.inr ⟨nofun, rest, htouched⟩
  | idles proposed =>
    refine Or.inr ⟨fun answer ha => ?_, rest, htouched⟩
    rw [proposed, Except.ok.inj ha]
  | @fails record answer log e proposed appended =>
    rcases htouched.sound.holds.append record with
      ⟨n, hn, -⟩ | ⟨e', -, rest', -, hholds, hflushed⟩
    · rw [appended] at hn
      cases hn
    rw [appended] at hholds hflushed
    exact Or.inr ⟨nofun, rest', ⟨h.admitted, htouched.sound.agrees.withLog log, hholds⟩,
      htouched.precedes, fun hf => hflushed (htouched.flushed hf),
      fun ht => (htouched.tidy ht).withLog log⟩
  | @commits record answer log n proposed appended =>
    have hproposes := proposes_iff.mpr ⟨answer, proposed⟩
    have hadmits := h.agrees.admits h.wellFormed hproposes
    have hdelete : ∀ id, record = .delete id →
        (Account.after rs found).names action.callerName = some id := by
      rintro id rfl
      rw [← h.agrees.names]
      exact names_of_proposes_delete hproposes
    rcases htouched.sound.holds.append record with ⟨n', -, hholds, hflushed⟩ | ⟨e, he, -⟩
    · rw [appended] at hholds hflushed
      have hfollows := (htouched.sound.agrees.withLog log).enact h.wellFormed hadmits hdelete
      rw [← Account.after_append_singleton] at hfollows
      refine Or.inl ⟨record, answer, proposed, rfl, ⟨h.admitted.snoc hadmits, hfollows.agrees, ?_⟩,
        htouched.precedes.trans hfollows.precedes, fun hf => ?_, fun ht => ?_⟩
      · simpa using hholds
      · simpa using hflushed (htouched.flushed hf)
      · have hframable := hholds.framable record (by simp)
        have htidy := ((htouched.tidy ht).mono fun id x hx => hx.append [record]).withLog log
        exact htidy.enact action.callerName hframable fun k hk hc =>
          Record.storable_of_named hframable rs hk hc
    · rw [appended] at he
      cases he

end Segments.Engine
