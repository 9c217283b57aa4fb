import Segments.Proofs.Fidelity
import Segments.Proofs.Repetition

/-!
# Recovery after a crash

A caller makes one call for a change after another while the journal device crashes at some byte.
A store that is opened over what came through looks like one on which only the acknowledged calls
were made, and the torn bytes are gone.
-/

namespace Segments

/-- A request at a moment. -/
structure Call where
  /-- The reading of the clock. -/
  clock : AttributeValue
  /-- What is asked for. -/
  request : Request
  deriving DecidableEq, Repr

/-- What is really left of an attribute store is one of the things that may be left. -/
theorem Engine.Sound.leaves_contents {s : Engine} {rs : List Record} {rest : Bytes}
    (h : s.Sound rs rest) (hf : s.log.Flushed rest) (ht : s.Tidy (Record.Storable rs)) :
    s.Leaves s.store.contents := by
  unfold AttributeStore.contents
  cases hkeeper : s.store.keeper with
  | volatile index =>
    refine .contents rfl fun id x v hv => ?_
    rw [h.holds.records hf]
    have hstored : s.store.get? id x = some v := by
      rw [AttributeStore.get?, AttributeStore.index, hkeeper]
      exact hv
    exact (ht.made.stored hstored).2.2
  | logged log => exact .cut hkeeper List.prefix_rfl

namespace Scheduler

/-- Makes a call and waits for the answer. -/
def make (s : Scheduler) (c : Call) : Scheduler × Except SegmentError Answer :=
  ({ s with engine := { s.engine with clock := c.clock } } : Scheduler).ask c.request

/-- Makes one call after another. -/
def makeAll (s : Scheduler) (calls : List Call) : Scheduler :=
  calls.foldl (fun s c => (s.make c).1) s

/-- The calls that are acknowledged when they are made one after another. -/
def acknowledged (s : Scheduler) : List Call → List Call
  | [] => []
  | c :: calls =>
    match (s.make c).2 with
    | .ok _ => c :: (s.make c).1.acknowledged calls
    | .error _ => (s.make c).1.acknowledged calls

/-- A store that is there for a caller who is alone. -/
structure Serves (s : Scheduler) (config : Config) (rs : List Record) (rest : Bytes) : Prop where
  /-- Nothing is under way. -/
  alone : s.Alone
  /-- The store is sound. -/
  sound : s.engine.Sound rs rest
  /-- It was not shut down. -/
  isOpen : s.engine.closed = false
  /-- It has the configuration. -/
  config : s.engine.config = config

/-- A store whose journal may fail, and another on which only what was acknowledged there was
done. -/
structure Twins (s t : Scheduler) (config : Config) (rs : List Record) (rest : Bytes) : Prop where
  /-- The one whose journal may fail. -/
  failing : s.Serves config rs rest
  /-- No flush of it has failed. -/
  flushed : s.engine.log.Flushed rest
  /-- What waits for its attribute store and what made it is what records commit. -/
  tidy : s.engine.Tidy (Record.Storable rs)
  /-- The other. -/
  other : t.Serves config rs []
  /-- The journal of the other does not fail. -/
  safe : t.engine.log.Safe

variable {s t : Scheduler} {config : Config} {rs : List Record} {rest : Bytes} {c : Call}

/-- A call for a change is answered at once, and the store is there again if it is sound. -/
theorem Serves.make (h : s.Serves config rs rest) (hq : c.request.changes = true) :
    ({ s.engine with clock := c.clock } : Engine).Called c.request (s.make c).1.engine
      (s.make c).2 ∧ ∀ new rest', (s.make c).1.engine.Sound (rs ++ new) rest' →
        (s.make c).1.Serves config (rs ++ new) rest' := by
  have hticked := (h.sound.tick c.clock).sound
  have halone : ({ s with engine := { s.engine with clock := c.clock } } : Scheduler).Alone :=
    ⟨h.alone.idle.withEngine _, h.alone.turns⟩
  obtain ⟨halone', hcalled⟩ := halone.ask hticked.agrees hticked.wellFormed h.isOpen hq
  obtain ⟨hconfig, hclosed, -⟩ := hcalled.frame
  exact ⟨hcalled, fun new rest' hsound =>
    ⟨halone', hsound, hclosed.trans h.isOpen, hconfig.trans h.config⟩⟩

/-- A call that fails leaves twins, and so does one that is acknowledged, if the other store is
called too. -/
theorem Twins.make (h : Twins s t config rs rest) (hq : c.request.changes = true) :
    (∀ e, (s.make c).2 = .error e → ∃ rest', Twins (s.make c).1 t config rs rest') ∧
    ∀ answer, (s.make c).2 = .ok answer → (∃ answer', (t.make c).2 = .ok answer') ∧
      ∃ rs' rest', Twins (s.make c).1 (t.make c).1 config rs' rest' := by
  have htick := h.failing.sound.tick c.clock
  have htick' := h.other.sound.tick c.clock
  obtain ⟨hcalled, hserves⟩ := h.failing.make hq
  obtain ⟨hcalled', hserves'⟩ := h.other.make hq
  obtain ⟨new, houtcome⟩ := htick.sound.called hcalled
  obtain ⟨rest', hcont⟩ := houtcome.continues
  have hall := htick.trans hcont
  refine ⟨fun e he => ?_, fun answer hanswer => ?_⟩
  · have hnew : new = [] := by
      rw [he] at houtcome
      cases houtcome
      rfl
    subst hnew
    have hone := hserves [] rest' hall.sound
    rw [List.append_nil] at hall hone
    exact ⟨rest', hone, hall.flushed h.flushed, hall.tidy h.tidy, h.other, h.safe⟩
  · -- the journal of the other store takes what this one took, so both have the same records
    rw [hanswer] at houtcome
    obtain ⟨hok, hcont'⟩ := houtcome.repeats htick.sound htick'.sound h.safe
      (h.other.config.trans h.failing.config.symm) rfl hcalled'
    have hall' := htick'.trans hcont'
    exact ⟨hok, rs ++ new, rest', hserves new rest' hall.sound, hall.flushed h.flushed,
      hall.tidy h.tidy, hserves' new [] hall'.sound, hcalled'.frame.2.2 h.safe⟩

/-- Stores stay twins when one is called for everything and the other for what was acknowledged,
all of which it acknowledges. -/
theorem Twins.makeAll (h : Twins s t config rs rest) {calls : List Call}
    (hq : ∀ c ∈ calls, c.request.changes = true) :
    (∃ rs' rest', Twins (s.makeAll calls) (t.makeAll (s.acknowledged calls)) config rs' rest') ∧
      t.acknowledged (s.acknowledged calls) = s.acknowledged calls := by
  induction calls generalizing s t rs rest with
  | nil => exact ⟨⟨rs, rest, h⟩, rfl⟩
  | cons c calls ih =>
    have hrest : ∀ c ∈ calls, c.request.changes = true :=
      fun c' hc' => hq c' (List.mem_cons_of_mem _ hc')
    obtain ⟨herror, hok⟩ := h.make (hq c List.mem_cons_self)
    rw [acknowledged]
    cases hanswer : (s.make c).2 with
    | error e =>
      obtain ⟨rest', htwins⟩ := herror e hanswer
      exact ih htwins hrest
    | ok answer =>
      obtain ⟨⟨answer', hanswer'⟩, rs', rest', htwins⟩ := hok answer hanswer
      obtain ⟨hafter, hdone⟩ := ih htwins hrest
      refine ⟨hafter, ?_⟩
      rw [acknowledged, hanswer']
      exact congrArg (c :: ·) hdone

theorem acknowledged_append (s : Scheduler) (calls more : List Call) :
    s.acknowledged (calls ++ more) =
      s.acknowledged calls ++ (s.makeAll calls).acknowledged more := by
  induction calls generalizing s with
  | nil => rfl
  | cons c calls ih =>
    have hall : s.makeAll (c :: calls) = (s.make c).1.makeAll calls := rfl
    rw [List.cons_append, acknowledged, acknowledged, hall]
    cases (s.make c).2 with
    | error e => exact ih _
    | ok answer => exact congrArg (c :: ·) (ih _)

/-- A new store is a twin of itself. -/
theorem twins_start (config : Config) (logged : Bool) (clock : AttributeValue) :
    Twins (ofEngine (Traffic.start config logged clock).engine)
      (ofEngine (Traffic.start config logged clock).engine) config [] [] := by
  have hserves : (ofEngine (Traffic.start config logged clock).engine).Serves config [] [] :=
    ⟨⟨idle_ofEngine _, fun id e he => by cases he⟩,
      (Traffic.sound_start config logged clock).engine, rfl, rfl⟩
  exact ⟨hserves, Traffic.flushed_start config logged clock,
    Traffic.tidy_start config logged clock _, hserves, ⟨rfl, rfl, rfl⟩⟩

/-- Setting the device to crash changes nothing yet. -/
theorem Twins.crashAfter (h : Twins s t config rs rest) (threshold : Nat) :
    Twins (s.modifySwitch fun w => { w with threshold := some threshold }) t config rs rest := by
  obtain ⟨hsound, -, htidy⟩ := h.failing.sound.modifySwitch
    (f := fun w => { w with threshold := some threshold }) fun _ => rfl
  exact ⟨⟨⟨h.failing.alone.idle.withEngine _, h.failing.alone.turns⟩, hsound, h.failing.isOpen,
    h.failing.config⟩, ⟨h.flushed.flushes, h.flushed.torn⟩, htidy _ h.tidy, h.other, h.safe⟩

/-- The device is set to crash once so many bytes were offered to it, at any moment while a caller
makes calls for changes. A store that is opened over what came through looks like one on which only
the acknowledged calls were made, and its journal is the same; there all of them are acknowledged
again. -/
theorem openStore_crashed (config config' : Config) (logged : Bool) (clock clock' : AttributeValue)
    (before after : List Call) (threshold : Nat)
    (hbefore : ∀ c ∈ before, c.request.changes = true)
    (hafter : ∀ c ∈ after, c.request.changes = true) :
    let opened := ofEngine (Traffic.start config logged clock).engine
    let armed := (opened.makeAll before).modifySwitch fun w =>
      { w with threshold := some threshold }
    let crashed := (armed.makeAll after).engine
    let done := opened.acknowledged before ++ armed.acknowledged after
    let ideal := (opened.makeAll done).engine
    opened.acknowledged done = done ∧ crashed.Leaves crashed.store.contents ∧
    ∀ left, crashed.Leaves left →
      let opening := Contents.openStore ⟨crashed.log.bytes, left⟩ config' clock'
      ∃ s, opening.2.2 = .ok s ∧ s.closed = false ∧ s.SameView ideal ∧
        s.log.bytes = ideal.log.bytes ∧ opening.1.journal = ideal.log.bytes := by
  intro opened armed crashed done ideal
  obtain ⟨⟨rs, rest, htwins⟩, hdone⟩ := (twins_start config logged clock).makeAll hbefore
  obtain ⟨⟨rs', rest', htwins'⟩, hdone'⟩ := (htwins.crashAfter threshold).makeAll hafter
  have hideal : ideal = ((opened.makeAll (opened.acknowledged before)).makeAll
      (armed.acknowledged after)).engine := by
    simp only [ideal, done, makeAll, List.foldl_append]
  rw [hideal]
  refine ⟨?_, htwins'.failing.sound.leaves_contents htwins'.flushed htwins'.tidy,
    fun left hleft => ?_⟩
  · rw [acknowledged_append, hdone]
    exact congrArg _ hdone'
  · have hsound := htwins'.failing.sound
    obtain ⟨s, hs, hjournal, hbytes, hopened, hagrees, -⟩ :=
      hsound.reopened htwins'.flushed htwins'.tidy hleft config' clock'
    have hother : ((opened.makeAll (opened.acknowledged before)).makeAll
        (armed.acknowledged after)).engine.log.bytes = Frame.wholes rs' := by
      rw [htwins'.other.sound.holds.bytes, List.append_nil]
    exact ⟨s, hs, hopened, hagrees.sameView htwins'.other.sound.agrees hsound.wellFormed,
      hbytes.trans hother.symm, hjournal.trans hother.symm⟩

/-- Of two appends the second one is torn in its frame: the first one is there, and the second one
is gone. -/
theorem openStore_crashed_of_torn :
    let opened := ofEngine (Traffic.start .standard true 0).engine
    let armed := (opened.makeAll [⟨5, .create "a" []⟩]).modifySwitch fun w =>
      { w with threshold := some 150 }
    let crashed := (armed.makeAll [⟨6, .append "a" [7] []⟩, ⟨7, .append "a" [8, 9] []⟩]).engine
    crashed.log.bytes.length = 150 ∧
    ∃ s, (Contents.openStore ⟨crashed.log.bytes, crashed.store.contents⟩ .standard 9).2.2 =
        .ok s ∧ s.log.bytes.length = 144 ∧
      ((s.live? 1).map Entry.view).map SegmentView.data = some [7] := by
  obtain ⟨-, hleaves, hopens⟩ := openStore_crashed .standard .standard true 0 9
    [⟨5, .create "a" []⟩] [⟨6, .append "a" [7] []⟩, ⟨7, .append "a" [8, 9] []⟩] 150
    (by simp [Request.changes]) (by simp [Request.changes])
  obtain ⟨s, hs, -, hview, hbytes, -⟩ := hopens _ hleaves
  refine ⟨by decide +kernel, s, hs, ?_, ?_⟩
  · rw [hbytes]
    decide +kernel
  · rw [hview.segments 1]
    decide +kernel

end Scheduler

end Segments
