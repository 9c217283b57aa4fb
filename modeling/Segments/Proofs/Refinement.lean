import Segments.Proofs.Delivery
import Segments.Proofs.Forecast

/-!
# A store refines the model of a segment

One caller does actions to a segment, and between them asks for anything that changes nothing,
evicts segments, and has the store opened again over what it left, after an orderly shutdown or not
and perhaps with another configuration. The store goes step by step with the model: every action
whose record fits a frame ends as the model says, and at every point the segment has the length, the
truncation offset, the bytes and the attribute values of the model and is sealed when the model is.
A record may only be too large for a frame where the configuration lets an append be as long as
that, and then the action fails and nothing has happened.
-/

namespace Segments

theorem Request.le_maxOffset {offset : Nat} (h : checkOffset offset = .ok ()) :
    offset ≤ maxOffset := by
  unfold checkOffset at h
  split at h
  · cases h
  · omega

/-- The offset that a valid request names for an action can be written. -/
theorem SegmentModel.le_maxOffset {m : SegmentModel} {name : String} {action : SegmentAction}
    {config : Config} {timeout : Nat} (h : (m.request name action).validate config timeout = .ok ())
    {offset : Nat} (hoffset : m.offset? action = some offset) : offset ≤ Request.maxOffset := by
  have hdetails := (Request.validate_eq_ok_iff.mp h).2.2
  cases action with
  | appendAt skew data =>
    rw [← Option.some.inj hoffset]
    simp only [request, Request.checkDetails, bind, Except.bind] at hdetails
    split at hdetails
    · cases hdetails
    · next hchecked => exact Request.le_maxOffset hchecked
  | truncate percent =>
    rw [← Option.some.inj hoffset]
    exact Request.le_maxOffset hdetails
  | append data updates => cases hoffset
  | update updates => cases hoffset
  | sealing => cases hoffset

theorem SegmentModel.changes_request (m : SegmentModel) (name : String) (action : SegmentAction) :
    (m.request name action).changes = true := by
  cases action <;> rfl

/-- Values that are listed under their attributes are found there. -/
theorem lookup_map_values (value : AttributeId → AttributeValue) {ids : List AttributeId}
    {x : AttributeId} (hx : x ∈ ids) :
    (ids.map fun y => (y, value y)).lookup x = some (value x) := by
  induction ids with
  | nil => cases hx
  | cons y ids ih =>
    rw [List.map_cons, List.lookup_cons]
    by_cases hxy : x = y
    · rw [hxy, beq_self_eq_true]
    · rw [beq_eq_false_iff_ne.mpr hxy]
      exact ih ((List.mem_cons.mp hx).resolve_left hxy)

/-- One thing that the caller of a store does. -/
inductive Deed where
  /-- An action is done to the segment. -/
  | act (action : SegmentAction)
  /-- A request is made. -/
  | query (request : Request)
  /-- A segment is evicted. -/
  | evict (name : String)
  /-- The store is opened again over what it left, perhaps after it was shut down. -/
  | reopen (orderly : Bool) (config : Config) (clock : AttributeValue)
  deriving DecidableEq, Repr

namespace Scheduler

/-- A segment is what a model says, as far as callers can see: it is described and read like the
model, and every attribute but the creation time is answered with the value of the model. -/
structure Shows (s : Scheduler) (name : String) (m : SegmentModel) : Prop where
  /-- It is described and read. -/
  described : ∃ p, (s.describe name).2 = .ok p ∧ p.length = m.length ∧
    p.truncationOffset = m.truncationOffset ∧ p.sealed = m.sealed ∧
    (s.describe name).1.readAll p = m.data.drop m.truncationOffset
  /-- Its attributes are looked up. -/
  answered : ∀ ids cache, ∃ values, (s.ask (.lookup name ids cache)).2 = .ok (.attributes values) ∧
    ∀ x ∈ ids, x ≠ .creationTime → values.lookup x = some (m.value x)

/-- What a store leaves behind that is shut down first, or not. -/
def leavings (s : Scheduler) (orderly : Bool) : Contents :=
  if orderly then s.shutdown.1.engine.contents else s.engine.contents

/-- Whether a request fits the journal: the record that it asks for, if it asks for one, has a
frame. -/
def Fits (s : Scheduler) (request : Request) : Prop :=
  ∀ action record, request.action? s.engine = some action → s.engine.Proposes action record →
    record.Framable

/-- A store goes with a model of one of its segments while its caller does one thing after another.
An action counts as long as the model follows it and its request is valid. If it fits the journal,
it ends as the model says; if not, it fails and nothing has happened. -/
def Refines (name : String) : List Deed → Scheduler → SegmentModel → Prop
  | [], s, m => s.Shows name m
  | .act action :: deeds, s, m => s.Shows name m ∧
    (action.Modelled → (m.request name action).validate s.engine.config patience = .ok () →
      (s.Fits (m.request name action) →
        Outcome.ofResult? (s.ask (m.request name action)).2 = some (m.apply action).2 ∧
        Refines name deeds (s.ask (m.request name action)).1 (m.apply action).1) ∧
      (¬s.Fits (m.request name action) →
        (∃ text, (s.ask (m.request name action)).2 = .error (.codec text)) ∧
        Refines name deeds (s.ask (m.request name action)).1 m))
  | .query request :: deeds, s, m => s.Shows name m ∧
    (request.changes = false → Refines name deeds (s.ask request).1 m)
  | .evict other :: deeds, s, m => s.Shows name m ∧ Refines name deeds (s.evict other).1 m
  | .reopen orderly config clock :: deeds, s, m => s.Shows name m ∧
    (SegmentName.validate name config.maxNameLength = .ok () →
      ∃ engine, ((s.leavings orderly).openStore config clock).2.2 = .ok engine ∧
        Refines name deeds (ofEngine engine) m)

variable {s : Scheduler} {rs : List Record} {name : String} {id : SegmentId} {g : SegmentAccount}
  {m : SegmentModel} {request : Request} {action : Action}

/-! ## What a call does -/

/-- How a call for a change ends by the verdict on the change, and what the store has then. -/
inductive Judged (rs : List Record) (s' : Scheduler) :
    Verdict → Except SegmentError Answer → Prop where
  /-- It is refused. -/
  | refused {e : SegmentError} (rested : s'.Rested rs) : Judged rs s' (.refuse e) (.error e)
  /-- It is needless. -/
  | needless {answer : Answer} (rested : s'.Rested rs) : Judged rs s' (.idle answer) (.ok answer)
  /-- Its record is taken. -/
  | committed {record : Record} {answer : Answer} (rested : s'.Rested (rs ++ [record])) :
      Judged rs s' (.commit record answer) (.ok answer)
  /-- Its record has no frame. -/
  | unframed {record : Record} {answer : Answer} (text : String) (unframable : ¬record.Framable)
      (rested : s'.Rested rs) : Judged rs s' (.commit record answer) (.error (.codec text))

/-- A valid call for a change ends by the verdict of a store that is like the one that is called, and
proposes the same records. -/
theorem Rested.judged (h : s.Rested rs) (hq : request.changes = true)
    (hvalid : request.validate s.engine.config patience = .ok ())
    (hasked : request.action? s.engine = some action) :
    ∃ t, s.engine.Alike t ∧ (∀ record, t.Proposes action record ↔ s.engine.Proposes action record) ∧
      Judged rs (s.ask request).1 (t.propose action) (s.ask request).2 := by
  obtain ⟨-, hcalled⟩ := h.alone.ask h.sound.agrees h.sound.wellFormed h.isOpen hq
  obtain ⟨t, halike, -, hresult⟩ := hcalled.executed h.sound.agrees h.sound.agrees
    h.sound.wellFormed rfl hvalid hasked
  obtain ⟨new, hrested, houtcome, -⟩ := h.change hq
  have hagrees := halike.agrees h.sound.agrees
  have hthere := h.sound.agrees.there_of_action? hasked
  have hsame : ∀ record, t.Proposes action record ↔ s.engine.Proposes action record :=
    fun record => ⟨hagrees.proposes h.sound.agrees halike.clock h.sound.wellFormed hthere,
      h.sound.agrees.proposes hagrees halike.clock.symm h.sound.wellFormed hthere⟩
  refine ⟨t, halike, hsame, ?_⟩
  have hexecutes := t.executes action
  rw [← hresult] at hexecutes
  generalize (s.ask request).2 = result, (t.execute action).1 = t' at houtcome hexecutes
  cases hexecutes with
  | @refused e proposed =>
    rw [proposed]
    cases houtcome
    rw [List.append_nil] at hrested
    exact .refused hrested
  | @idles answer proposed =>
    rw [proposed]
    cases houtcome with
    | idle => exact .needless (by rwa [List.append_nil] at hrested)
    | @committed action' record _ _ asked proposes _ =>
      obtain rfl := Option.some.inj (hasked.symm.trans asked)
      obtain ⟨answer', hcommit⟩ := Engine.proposes_iff.mp ((hsame record).mpr proposes)
      rw [proposed] at hcommit
      cases hcommit
  | @fails record answer log e proposed appended =>
    rw [proposed]
    cases houtcome
    rw [List.append_nil] at hrested
    have hlog : (t.touchConsulted action).log = s.engine.log :=
      (Engine.Alike.touchConsulted t action).log.trans halike.log
    rw [hlog] at appended
    have hunframable : ¬record.Framable := fun hr => by
      obtain ⟨n, hn⟩ := h.safe.append_eq_ok hr
      rw [appended] at hn
      cases hn
    obtain ⟨text, htext⟩ := s.engine.log.append_of_not_framable hunframable
    rw [appended] at htext
    obtain rfl : e = .codec text := Except.error.inj htext
    exact .unframed text hunframable hrested
  | @commits record answer log n proposed appended =>
    rw [proposed]
    obtain ⟨answer', hcommit⟩ :=
      Engine.proposes_iff.mp ((hsame record).mp (Engine.proposes_iff.mpr ⟨answer, proposed⟩))
    cases houtcome with
    | @idle _ action' _ _ asked idles _ =>
      obtain rfl := Option.some.inj (hasked.symm.trans asked)
      rw [Engine.idles_iff.mp idles] at hcommit
      cases hcommit
    | @committed action' record' _ _ asked proposes _ =>
      obtain rfl := Option.some.inj (hasked.symm.trans asked)
      obtain ⟨answer'', hcommit'⟩ := Engine.proposes_iff.mp proposes
      rw [hcommit, Verdict.commit.injEq] at hcommit'
      rw [← hcommit'.1] at hrested
      exact .committed hrested

/-! ## A store and a model -/

/-- A store has a segment that a model describes. -/
def Carries (s : Scheduler) (name : String) (m : SegmentModel) : Prop :=
  ∃ rs id g, s.Keeps rs name id g ∧ m.Describes g ∧ id < Bytes.capacity 8

theorem Carries.shows (h : s.Carries name m) : s.Shows name m := by
  obtain ⟨rs, id, g, hk, hm, -⟩ := h
  obtain ⟨p, hp, hafter, hname, hlength, htruncation, hsealed, hmerged⟩ := hk.describe
  refine ⟨⟨p, hp, hlength.trans hm.length, htruncation.trans hm.truncationOffset, ?_, ?_⟩,
    fun ids cache => ⟨_, hk.lookup ids cache, fun x hx hne => ?_⟩⟩
  · rw [hsealed, hm.state]
    cases m.sealed <;> rfl
  · rw [hafter.readAll (hm.truncationOffset ▸ hm.readable) hname hlength htruncation hmerged,
      hm.data, hm.truncationOffset]
  · rw [lookup_map_values g.attributes (List.mem_eraseDups.mpr hx), hm.values x hne]

/-- The change that an action asks for is that of the model. -/
theorem Keeps.action?_request (h : s.Keeps rs name id g) (m : SegmentModel)
    (action : SegmentAction) :
    (m.request name action).action? s.engine = some (m.change name id action) := by
  obtain ⟨e, hr, -, rfl, -, -, -⟩ := h.resolve (.refl _)
  have hlive : s.engine.resolve? name = some e := by
    unfold Engine.resolve at hr
    split at hr
    · next heq => rw [heq, Except.ok.inj hr]
    · cases hr
  cases action <;> simp only [SegmentModel.request, Request.action?, hlive] <;> rfl

/-- A record that changes the segment leaves it there, if it can still be read. -/
theorem Keeps.modified (h : s.Keeps rs name id g) {s' : Scheduler} {record : Record}
    (hs : s'.Rested (rs ++ [record])) (hconfig : s'.engine.config = s.engine.config)
    {f : SegmentAccount → SegmentAccount} (happlies : ∀ a : Account, a.apply record = a.modify id f)
    (hreadable : (f g).state = .active ∨ (f g).state = .sealed) :
    s'.Keeps (rs ++ [record]) name id (f g) := by
  have hafter : Account.after (rs ++ [record]) = (Account.after rs).modify id f := by
    rw [Account.after_append_singleton, happlies]
  refine ⟨hs, hconfig ▸ h.valid, ?_, ?_, hreadable⟩ <;> rw [hafter]
  · exact h.named
  · simp only [Account.modify, Function.update_self, h.segment, Option.map_some]

/-- A request fits the journal if no record that is too large is proposed for it. -/
theorem fits_iff (hasked : request.action? s.engine = some action) {t : Engine}
    (hsame : ∀ record, t.Proposes action record ↔ s.engine.Proposes action record) :
    s.Fits request ↔ ∀ record answer, t.propose action = .commit record answer →
      record.Framable := by
  constructor
  · intro hfits record answer hcommit
    exact hfits action record hasked ((hsame record).mp (Engine.proposes_iff.mpr ⟨answer, hcommit⟩))
  · intro hframable action' record hasked' hproposes
    obtain rfl := Option.some.inj (hasked.symm.trans hasked')
    obtain ⟨answer, hcommit⟩ := Engine.proposes_iff.mp ((hsame record).mpr hproposes)
    exact hframable record answer hcommit

/-- The verdict on a valid action that the model follows: how the call ends by it, that it decides
whether the request fits the journal, and that the model foretells it. -/
theorem Keeps.verdict (h : s.Keeps rs name id g) (hm : m.Describes g) (hid : id < Bytes.capacity 8)
    {action : SegmentAction} (hmodelled : action.Modelled)
    (hvalid : (m.request name action).validate s.engine.config patience = .ok ()) :
    ∃ verdict, Judged rs (s.ask (m.request name action)).1 verdict
        (s.ask (m.request name action)).2 ∧
      (s.Fits (m.request name action) ↔ ∀ record answer, verdict = .commit record answer →
        record.Framable) ∧
      m.Foretells id g (m.apply action) (m.Light action) verdict := by
  have hasked := h.action?_request m action
  obtain ⟨t, halike, hsame, hjudged⟩ :=
    h.rested.judged (m.changes_request name action) hvalid hasked
  obtain ⟨e, -, he, hown, hd, hc, -⟩ := h.resolve halike
  have hmeets : m.Meets t e id g := ⟨he, hown, hd, hc, hm⟩
  exact ⟨_, hjudged, fits_iff hasked hsame,
    hmeets.foretells action hmodelled (fun _ => SegmentModel.le_maxOffset hvalid) hid⟩

/-- What is light enough in the model fits the journal. -/
theorem Carries.fits (h : s.Carries name m) {action : SegmentAction} (hmodelled : action.Modelled)
    (hvalid : (m.request name action).validate s.engine.config patience = .ok ())
    (hlight : m.Light action) : s.Fits (m.request name action) := by
  obtain ⟨rs, id, g, hk, hm, hid⟩ := h
  obtain ⟨verdict, -, hfits, hforetold⟩ := hk.verdict hm hid hmodelled hvalid
  refine hfits.mpr fun record answer hcommit => ?_
  cases hforetold with
  | refused | needless => cases hcommit
  | committed f done applies describes framable =>
    cases hcommit
    exact framable hlight

/-- A valid action that the model follows ends as the model says if it fits the journal, and else it
fails; and the model, unchanged in that case, goes on to describe the segment. -/
theorem Carries.act (h : s.Carries name m) {action : SegmentAction} (hmodelled : action.Modelled)
    (hvalid : (m.request name action).validate s.engine.config patience = .ok ()) :
    (s.Fits (m.request name action) →
      Outcome.ofResult? (s.ask (m.request name action)).2 = some (m.apply action).2 ∧
      (s.ask (m.request name action)).1.Carries name (m.apply action).1) ∧
    (¬s.Fits (m.request name action) →
      (∃ text, (s.ask (m.request name action)).2 = .error (.codec text)) ∧
      (s.ask (m.request name action)).1.Carries name m) := by
  obtain ⟨rs, id, g, hk, hm, hid⟩ := h
  obtain ⟨-, -, -, hconfig⟩ := hk.rested.change (m.changes_request name action)
  obtain ⟨verdict, hjudged, hfits, hforetold⟩ := hk.verdict hm hid hmodelled hvalid
  rw [hfits]
  generalize (s.ask (m.request name action)).2 = result at hjudged ⊢
  cases hjudged with
  | refused rested =>
    refine ⟨fun _ => ?_, fun hnot => absurd (fun _ _ hcommit => by cases hcommit) hnot⟩
    cases hforetold with
    | refused known same =>
      exact ⟨known, rs, id, g, hk.of_rested rested hconfig, same.symm ▸ hm, hid⟩
  | needless rested =>
    refine ⟨fun _ => ?_, fun hnot => absurd (fun _ _ hcommit => by cases hcommit) hnot⟩
    cases hforetold with
    | needless done same =>
      exact ⟨congrArg some done.symm, rs, id, g, hk.of_rested rested hconfig,
        same.symm ▸ hm, hid⟩
  | @committed record answer rested =>
    have hframable : record.Framable := rested.sound.holds.framable record
      (List.mem_append_right _ List.mem_cons_self)
    refine ⟨fun _ => ?_, fun hnot => absurd (fun _ _ hcommit => ?_) hnot⟩
    · cases hforetold with
      | committed f done applies describes _ =>
        exact ⟨congrArg some done.symm, rs ++ [record], id, f g,
          hk.modified rested hconfig applies describes.readable_state, describes, hid⟩
    · cases hcommit
      exact hframable
  | @unframed record answer text unframable rested =>
    refine ⟨fun hall => absurd (hall record answer rfl) unframable, fun _ => ?_⟩
    exact ⟨⟨text, rfl⟩, rs, id, g, hk.of_rested rested hconfig, hm, hid⟩

/-- An append of four gigabytes or more does not fit the journal. -/
theorem Carries.not_fits (h : s.Carries name m) (hactive : m.sealed = false) {data : Bytes}
    (hlong : Bytes.capacity 4 ≤ data.length) : ¬s.Fits (m.request name (.append data [])) := by
  obtain ⟨rs, id, g, hk, hm, hid⟩ := h
  obtain ⟨e, -, he, -, hd, -, -⟩ := hk.resolve (.refl _)
  have hentry : s.engine.entry id = e := Engine.entry_eq he
  have hstate : (s.engine.entry id).state = .active := by
    rw [hentry, Entry.state, hd.state, hm.state, hactive]
    rfl
  intro hfits
  exact Record.not_framable_append hlong (hfits _ _ (hk.action?_request m (.append data []))
    (.append hstate (fun _ hnone => by cases hnone) rfl))

theorem Carries.query (h : s.Carries name m) (hq : request.changes = false) :
    (s.ask request).1.Carries name m := by
  obtain ⟨rs, id, g, hk, hm, hid⟩ := h
  exact ⟨rs, id, g, hk.query hq, hm, hid⟩

theorem Carries.evict (h : s.Carries name m) (other : String) :
    (s.evict other).1.Carries name m := by
  obtain ⟨rs, id, g, hk, hm, hid⟩ := h
  obtain ⟨hrested, hconfig⟩ := hk.rested.evict other
  exact ⟨rs, id, g, hk.of_rested hrested hconfig, hm, hid⟩

/-- Opened again, under a configuration that admits the name, the store has the segment. -/
theorem Carries.reopen (h : s.Carries name m) (orderly : Bool) {config : Config}
    (hname : SegmentName.validate name config.maxNameLength = .ok ()) (clock : AttributeValue) :
    ∃ engine, ((s.leavings orderly).openStore config clock).2.2 = .ok engine ∧
      (ofEngine engine).Carries name m := by
  obtain ⟨rs, id, g, hk, hm, hid⟩ := h
  have hopened : ∃ s', ((s.leavings orderly).openStore config clock).2.2 = .ok s' ∧
      (ofEngine s').Rested rs ∧ s'.config = config := by
    cases orderly with
    | true => exact hk.rested.restart config clock
    | false => exact hk.rested.reopen config clock
  obtain ⟨engine, hopen, hrested, hconfig⟩ := hopened
  refine ⟨engine, hopen, rs, id, g, ⟨hrested, ?_, hk.named, hk.segment, hk.readable⟩, hm, hid⟩
  have hsame : (ofEngine engine).engine.config = config := hconfig
  rwa [hsame]

/-- Whatever is done, a store goes with the model that describes its segment. -/
theorem Carries.refines (h : s.Carries name m) (deeds : List Deed) : Refines name deeds s m := by
  induction deeds generalizing s m with
  | nil => exact h.shows
  | cons deed deeds ih =>
    cases deed with
    | act action =>
      refine ⟨h.shows, fun hmodelled hvalid => ?_⟩
      obtain ⟨hends, hfails⟩ := h.act hmodelled hvalid
      exact ⟨fun hfits => (hends hfits).imp_right ih, fun hlarge => (hfails hlarge).imp_right ih⟩
    | query request => exact ⟨h.shows, fun hq => ih (h.query hq)⟩
    | evict other => exact ⟨h.shows, ih (h.evict other)⟩
    | reopen orderly config clock =>
      refine ⟨h.shows, fun hname => ?_⟩
      obtain ⟨engine, hopen, hafter⟩ := h.reopen orderly hname clock
      exact ⟨engine, hopen, ih hafter⟩

/-- A segment that was just created is described by the model to which nothing was done. -/
theorem Rested.carries_created (h : s.Rested rs) {answer : Answer}
    (hcreated : (s.ask (.create name [])).2 = .ok answer) :
    (s.ask (.create name [])).1.Carries name .empty := by
  have hchanges : (Request.create name []).changes = true := rfl
  obtain ⟨new, hrested, houtcome, hconfig⟩ := h.change hchanges
  rw [hcreated] at houtcome
  generalize (s.ask (.create name [])).1 = s' at hrested houtcome hconfig ⊢
  cases houtcome with
  | idle valid asked idles =>
    cases asked
    cases idles
  | committed valid asked proposes =>
    cases asked
    cases proposes with
    | create free evaluated =>
      cases evaluated
      have hname : SegmentName.validate name s.engine.config.maxNameLength = .ok () :=
        Request.checkNames_singleton.mp (Request.validate_eq_ok_iff.mp valid).1
      have hframable := hrested.sound.holds.framable
        (.create s.engine.nextId name (s.engine.withCreationTime []))
        (List.mem_append_right _ List.mem_cons_self)
      refine ⟨_, s.engine.nextId, _, ⟨hrested, hconfig ▸ hname, ?_, ?_, .inl rfl⟩,
        SegmentModel.describes_created name s.engine.clock, hframable.number_lt List.mem_cons_self⟩
        <;> rw [Account.after_append_singleton, Account.apply]
      · exact Function.update_self ..
      · rw [Account.after_found]
        exact Function.update_self ..

/-- A store refines the model of a segment: after a segment was created, whatever its caller does to
it, and however the store is configured, the store goes with the model. -/
theorem refines_of_create (config : Config) (logged : Bool) (clock : AttributeValue) (name : String)
    (deeds : List Deed)
    (hcreated : ((start config logged clock).ask (.create name [])).2 = .ok .done) :
    ((start config logged clock).ask (.create name [])).1.Refines name deeds .empty :=
  ((rested_start config logged clock).carries_created hcreated).refines deeds

/-- Where an append may have four gigabytes, one of that length fails although the model takes it. -/
theorem ask_append_of_long :
    let config := { Config.standard with maxAppendLength := Bytes.capacity 4 }
    let created := ((start config true 0).ask (.create "a" [])).1
    let action := SegmentAction.append (List.replicate (Bytes.capacity 4) 0) []
    ((start config true 0).ask (.create "a" [])).2 = .ok .done ∧ action.Modelled ∧
      (SegmentModel.empty.request "a" action).validate created.engine.config patience = .ok () ∧
      (SegmentModel.empty.apply action).2 = .done ∧
      ∃ text, (created.ask (SegmentModel.empty.request "a" action)).2 = .error (.codec text) := by
  intro config created action
  have hcreated : ((start config true 0).ask (.create "a" [])).2 = .ok .done := by
    decide +kernel
  have hconfig : created.engine.config = config := by decide +kernel
  have hcarries : created.Carries "a" .empty :=
    (rested_start config true 0).carries_created hcreated
  clear_value created
  -- the bytes are never looked at, only their number
  obtain ⟨data, hdata⟩ : ∃ data : Bytes, data = List.replicate (Bytes.capacity 4) 0 := ⟨_, rfl⟩
  have hlength : data.length = Bytes.capacity 4 := by rw [hdata, List.length_replicate]
  have haction : action = .append data [] := by rw [hdata]
  clear_value action
  subst haction
  have hmodelled : (SegmentAction.append data []).Modelled := nofun
  have hvalid : (SegmentModel.empty.request "a" (.append data [])).validate created.engine.config
      patience = .ok () := by
    have hname : SegmentName.validate "a" config.maxNameLength = .ok () := by decide +kernel
    have hpayload : Request.checkPayload config data = .ok () :=
      if_neg (by rw [hlength]; exact Nat.lt_irrefl _)
    rw [hconfig]
    refine Request.validate_eq_ok_iff.mpr ⟨Request.checkNames_singleton.mpr hname, by decide, ?_⟩
    rw [SegmentModel.request, Request.checkDetails, hpayload]
    rfl
  obtain ⟨htext, -⟩ := (hcarries.act hmodelled hvalid).2
    (hcarries.not_fits rfl (Nat.le_of_eq hlength.symm))
  exact ⟨hcreated, hmodelled, hvalid, rfl, htext⟩

/-- An append with an attribute is there after an eviction, and under a configuration that keeps no
attributes in memory. -/
theorem refines_of_create_of_reopened :
    let action := SegmentAction.append [1, 2] [⟨⟨0, 7⟩, .accumulate, 5⟩]
    let created := ((start .standard true 0).ask (.create "a" [])).1
    let appended := (created.ask (SegmentModel.empty.request "a" action)).1
    let config := { Config.standard with maxCachedAttributes := 0 }
    ∃ engine, (((appended.evict "a").1.leavings false).openStore config 9).2.2 = .ok engine ∧
      (ofEngine engine).Shows "a" (SegmentModel.empty.apply action).1 := by
  intro action created appended config
  have hcreated : ((start .standard true 0).ask (.create "a" [])).2 = .ok .done := by
    decide +kernel
  have hvalid : (SegmentModel.empty.request "a" action).validate created.engine.config patience =
      .ok () := by decide +kernel
  have hlight : SegmentModel.empty.Light action := by decide +kernel
  have hname : SegmentName.validate "a" config.maxNameLength = .ok () := by decide +kernel
  have hcarries : created.Carries "a" .empty :=
    (rested_start .standard true 0).carries_created hcreated
  have hrefines : created.Refines "a" [.act action, .evict "a", .reopen false config 9] .empty :=
    refines_of_create .standard true 0 "a" _ hcreated
  clear_value created
  have hmodelled : action.Modelled := by decide
  obtain ⟨-, -, -, hreopen⟩ :=
    (hrefines.2 hmodelled hvalid).1 (hcarries.fits hmodelled hvalid hlight)
  exact hreopen hname

end Scheduler

end Segments
