import Segments.Proofs.Lookup

/-!
# How operations go on

`Goes` lists all that one step of an operation can do: wait, take part in a look-up, or make the
change that was asked for, all at once and between two engines that nothing but turns and recency
tells apart. An operation in flight is `Valid` when what it carries along still holds, and it stays
so while others go on.
-/

namespace Segments

namespace Request

/-- The change that a request asks for, of the segments that its names stand for. -/
def action? (s : Engine) : Request → Option Action
  | create name updates => some (.create name updates)
  | append name data updates => (s.resolve? name).map fun e => .append e.id data updates none
  | appendAt name offset data updates =>
    (s.resolve? name).map fun e => .append e.id data updates (some offset)
  | update name updates => (s.resolve? name).map fun e => .update name e.id updates
  | sealing name => (s.resolve? name).map fun e => .sealing name e.id
  | delete name => (s.resolve? name).map fun e => .delete name e.id
  | truncate name offset => (s.resolve? name).map fun e => .truncate name e.id offset
  | merge target source =>
    match s.resolve? target, s.resolve? source with
    | some t, some u => some (.merge t.id u.id)
    | _, _ => none
  | lookup .. | read .. | info .. => none

/-- Whether a request asks for a change. -/
def changes : Request → Bool
  | create .. | append .. | appendAt .. | update .. | sealing _ | delete _ | truncate ..
  | merge .. => true
  | lookup .. | read .. | info .. => false

/-- Whether a change is of the kind that a request asks for, with its data. -/
def Means : Request → Action → Prop
  | create name updates, .create name' updates' => name' = name ∧ updates' = updates
  | append _ data updates, .append _ data' updates' expected =>
    data' = data ∧ updates' = updates ∧ expected = none
  | appendAt _ offset data updates, .append _ data' updates' expected =>
    data' = data ∧ updates' = updates ∧ expected = some offset
  | update name updates, .update name' _ updates' => name' = name ∧ updates' = updates
  | sealing name, .sealing name' _ => name' = name
  | delete name, .delete name' _ => name' = name
  | truncate name offset, .truncate name' _ offset' => name' = name ∧ offset' = offset
  | merge _ _, .merge _ _ => True
  | _, _ => False

/-- What a request asks for is what it means. -/
theorem means_of_action? {s : Engine} {r : Request} {action : Action}
    (h : r.action? s = some action) : r.Means action := by
  cases r with
  | create name updates =>
    obtain rfl := Option.some.inj h
    exact ⟨rfl, rfl⟩
  | append name data updates =>
    obtain ⟨e, -, rfl⟩ := Option.map_eq_some_iff.mp h
    exact ⟨rfl, rfl, rfl⟩
  | appendAt name offset data updates =>
    obtain ⟨e, -, rfl⟩ := Option.map_eq_some_iff.mp h
    exact ⟨rfl, rfl, rfl⟩
  | update name updates =>
    obtain ⟨e, -, rfl⟩ := Option.map_eq_some_iff.mp h
    exact ⟨rfl, rfl⟩
  | sealing name =>
    obtain ⟨e, -, rfl⟩ := Option.map_eq_some_iff.mp h
    rfl
  | delete name =>
    obtain ⟨e, -, rfl⟩ := Option.map_eq_some_iff.mp h
    rfl
  | truncate name offset =>
    obtain ⟨e, -, rfl⟩ := Option.map_eq_some_iff.mp h
    exact ⟨rfl, rfl⟩
  | merge target source =>
    rw [action?] at h
    split at h
    · obtain rfl := Option.some.inj h
      exact trivial
    · cases h
  | lookup name ids cache => cases h
  | read name offset maxLength => cases h
  | info name wait => cases h

end Request

namespace Operation

/-- The change that an operation is about to make. -/
def action? (s : Engine) (o : Operation) : Option Action :=
  match o.phase with
  | .accepted => o.request.action? s
  | .inLine action _ _ _ => some action
  | _ => none

/-- What an operation carries along still holds. -/
def Valid (o : Operation) (s : Engine) (a : Account) : Prop :=
  match o.phase with
  | .inLine action _ _ _ => o.request.Means action
  | .fetching id l _ => ∃ e, s.entries.get? id = some e ∧ l.Pending e (a.segments id)
  | .fetched id l _ values => ∃ e, s.entries.get? id = some e ∧ l.Read values e (a.segments id)
  | _ => True

/-- What an operation carries along still holds when others have gone on. -/
theorem Valid.precedes {o : Operation} {s s' : Engine} {a a' : Account} (h : o.Valid s a)
    (hp : s.Precedes a s' a') : o.Valid s' a' := by
  unfold Valid at h ⊢
  split at h
  · exact h
  · obtain ⟨e, he, hl⟩ := h
    obtain ⟨e', he', hp'⟩ := hp _ e he
    exact ⟨e', he', hl.precedes hp'⟩
  · obtain ⟨e, he, hl⟩ := h
    obtain ⟨e', he', hp'⟩ := hp _ e he
    exact ⟨e', he', hl.precedes hp'⟩
  · exact trivial

/-- What an operation asks for is what its request means, also later. -/
theorem Valid.means {o : Operation} {s : Engine} {a : Account} (h : o.Valid s a)
    {action : Action} (ha : o.action? s = some action) : o.request.Means action := by
  unfold action? at ha
  unfold Valid at h
  split at ha
  · exact Request.means_of_action? ha
  · next hphase =>
    obtain rfl := Option.some.inj ha
    rwa [hphase] at h
  · cases ha

end Operation

namespace Engine

/-- All that one step of an operation can do. -/
inductive Goes (s : Engine) (o : Operation) : Engine → Phase → Prop where
  /-- It waits for earlier operations. -/
  | waits {s' : Engine} (alike : s.Alike s') : Goes s o s' .accepted
  /-- It waits for a turn. -/
  | queues {s' : Engine} {action : Action} (held : List Place) (place : Place)
      (wanted : List SegmentId) (asked : o.action? s = some action) (alike : s.Alike s') :
      Goes s o s' (.inLine action held place wanted)
  /-- It finds the store shut down. -/
  | closes {s' : Engine} (closed : s.closed = true) (alike : s.Alike s') :
      Goes s o s' (.finished (.error .storeClosed))
  /-- It ends without a change to make, and fails if one was asked for. -/
  | answers {s' : Engine} (result : Except SegmentError Answer) (none : o.action? s = none)
      (fails : o.request.changes = true → ∃ e, result = .error e) (alike : s.Alike s') :
      Goes s o s' (.finished result)
  /-- It makes its change. -/
  | executes {s₁ s' : Engine} {action : Action} (asked : o.action? s = some action)
      (alike : s.Alike s₁) (isOpen : s₁.closed = false) (after : (s₁.execute action).1.Alike s') :
      Goes s o s' (.finished (s₁.execute action).2.2)
  /-- It begins a look-up. -/
  | begins {name : String} {e : Entry} (ids : List AttributeId) (cache : Bool)
      (found : s.resolve name = .ok e) (readable : e.state = .active ∨ e.state = .sealed)
      (quiet : o.request.changes = false) :
      Goes s o (s.touch e.id ids)
        (.fetching e.id (.ofTiers e.metadata.attributes ids) cache)
  /-- It reads the attribute store. -/
  | reads {id : SegmentId} {l : AttributeLookup} {cache : Bool}
      (phase : o.phase = .fetching id l cache) :
      Goes s o s (.fetched id l cache (s.store.lookup id l.missing))
  /-- It ends a look-up. -/
  | ends {id : SegmentId} {l : AttributeLookup} {cache : Bool} {values : AttributeValues}
      (phase : o.phase = .fetched id l cache values) :
      Goes s o (s.finishLookup id l cache values).1 (s.finishLookup id l cache values).2.1
  /-- It has ended before. -/
  | stays {result : Except SegmentError Answer} (phase : o.phase = .finished result) :
      Goes s o s (.finished result)

variable {s s₀ : Engine} {o : Operation} {action : Action}

/-- An operation with a change to make that ends while the store is open has made it. -/
theorem Goes.executed {s' : Engine} {phase : Phase} {result : Except SegmentError Answer}
    (h : Goes s o s' phase) (ha : o.action? s = some action) (hopen : s.closed = false)
    (hphase : phase = .finished result) :
    ∃ s₁, s.Alike s₁ ∧ (s₁.execute action).1.Alike s' ∧ result = (s₁.execute action).2.2 := by
  have hnone : o.action? s ≠ none := by
    rw [ha]
    exact Option.some_ne_none action
  cases h with
  | waits alike => cases hphase
  | queues held place wanted asked alike => cases hphase
  | closes closed alike =>
    rw [hopen] at closed
    cases closed
  | answers result none fails alike => exact absurd none hnone
  | @executes s₁ _ action' asked alike isOpen after =>
    obtain rfl := Option.some.inj (ha.symm.trans asked)
    exact ⟨s₁, alike, after, (Phase.finished.inj hphase).symm⟩
  | begins ids cache found readable => cases hphase
  | reads phase => cases hphase
  | ends phase => exact absurd (by rw [Operation.action?, phase]) hnone
  | stays phase => exact absurd (by rw [Operation.action?, phase]) hnone

/-- An operation that was asked for a change but has none to make fails at its first step. -/
theorem Goes.refused {s' : Engine} {phase : Phase} {result : Except SegmentError Answer}
    (h : Goes s o s' phase) (hstart : o.phase = .accepted) (ha : o.action? s = none)
    (hq : o.request.changes = true) (hphase : phase = .finished result) :
    s.Alike s' ∧ ∃ e, result = .error e := by
  cases h with
  | waits alike => cases hphase
  | queues held place wanted asked alike => cases hphase
  | closes closed alike => exact ⟨alike, _, (Phase.finished.inj hphase).symm⟩
  | answers result none fails alike => exact ⟨alike, Phase.finished.inj hphase ▸ fails hq⟩
  | executes asked alike isOpen after =>
    rw [ha] at asked
    cases asked
  | begins ids cache found readable => cases hphase
  | reads phase => cases hphase
  | ends phase =>
    rw [hstart] at phase
    cases phase
  | stays phase =>
    rw [hstart] at phase
    cases phase

/-- What is accepted has passed its checks, and only its registrations are new. -/
theorem accept_eq_ok {request : Request} {timeout : Nat} {s' : Engine}
    (h : s.accept request timeout = .ok (s', o)) :
    request.validate s.config timeout = .ok () ∧ o.request = request ∧ o.phase = .accepted ∧
      ∃ pending, s' = { s with pending } := by
  unfold Engine.accept at h
  split at h
  · cases h
  · next hvalid =>
    simp only [Except.ok.injEq, Prod.mk.injEq] at h
    obtain ⟨rfl, rfl⟩ := h
    exact ⟨hvalid, rfl, rfl, _, rfl⟩

/-- An open store admits operations, and a closed one refuses them. -/
theorem requireOpen_eq (s : Engine) :
    s.requireOpen = if s.closed then .error .storeClosed else .ok () := rfl

theorem takeTurns_goes (h : s₀.Alike s) (ha : o.action? s₀ = some action) (held : List Place)
    (wanted : List SegmentId) : Goes s₀ o (s.takeTurns action held wanted).1
      (s.takeTurns action held wanted).2.1 := by
  induction wanted generalizing s held with
  | nil =>
    unfold takeTurns
    cases hc : s.closed with
    | true =>
      simp only [requireOpen_eq, hc, ↓reduceIte, Phase.ofCheck]
      exact .closes (h.closed.symm.trans hc) (h.trans (.leaveAll s held))
    | false =>
      simp only [requireOpen_eq, hc, Bool.false_eq_true, ↓reduceIte, Phase.ofCheck, conclude]
      exact .executes ha h hc (.leaveAll _ held)
  | cons id wanted ih =>
    unfold takeTurns
    simp only
    split
    · exact ih (h.trans (.modifyTurns s id _)) _
    · have halike := h.trans (.modifyTurns s id fun _ => (s.entry id).turns.arrive.1)
      exact .queues held _ wanted ha halike

/-- A name that stands for a segment resolves to it. -/
theorem resolve_of_resolve? {name : String} {e : Entry} (h : s.resolve? name = some e) :
    s.resolve name = .ok e := by
  rw [resolve, h]

/-- A name that resolves to a segment stands for it. -/
theorem resolve?_of_resolve {name : String} {e : Entry} (h : s.resolve name = .ok e) :
    s.resolve? name = some e := by
  unfold resolve at h
  split at h
  · next he =>
    rw [Except.ok.injEq] at h
    rw [he, h]
  · cases h

/-- A name that does not resolve stands for nothing. -/
theorem resolve?_of_error {name : String} {err : SegmentError} (h : s.resolve name = .error err) :
    s.resolve? name = none := by
  unfold resolve at h
  split at h
  · cases h
  · next he => exact he

/-- A step that goes on only while the store is open. -/
theorem goes_of_open {next : Unit → Engine × Phase × List Event}
    (h : s.closed = false → Goes s o (next ()).1 (next ()).2.1) :
    Goes s o (Phase.ofCheck s s.requireOpen next).1 (Phase.ofCheck s s.requireOpen next).2.1 := by
  cases hc : s.closed with
  | true =>
    simp only [requireOpen_eq, hc, ↓reduceIte, Phase.ofCheck]
    exact .closes hc (.refl s)
  | false =>
    simp only [requireOpen_eq, hc, Bool.false_eq_true, ↓reduceIte, Phase.ofCheck]
    exact h hc

/-- A step that goes on only when a name stands for a segment. -/
theorem goes_of_resolve {name : String} {next : Entry → Engine × Phase × List Event}
    (hnone : s.resolve? name = none → o.action? s = none)
    (h : ∀ e, s.resolve name = .ok e → Goes s o (next e).1 (next e).2.1) :
    Goes s o (Phase.ofCheck s (s.resolve name) next).1
      (Phase.ofCheck s (s.resolve name) next).2.1 := by
  cases hr : s.resolve name with
  | error err => exact .answers _ (hnone (resolve?_of_error hr)) (fun _ => ⟨err, rfl⟩) (.refl s)
  | ok e => exact h e hr

/-- A change that is decided at once goes as its operation may. -/
theorem conclude_goes (hc : s.closed = false) (ha : o.action? s = some action) :
    Goes s o (s.conclude action).1 (s.conclude action).2.1 :=
  .executes ha (.refl s) hc (.refl _)

/-- A change that needs the turn of a segment goes as its operation may. -/
theorem inTurn_goes (name : String) (make : SegmentId → Action)
    (ha : o.action? s = (s.resolve? name).map fun e => make e.id) :
    Goes s o (s.inTurn name make).1 (s.inTurn name make).2.1 :=
  goes_of_open fun _ => goes_of_resolve (fun hn => by rw [ha, hn]; rfl) fun e he =>
    takeTurns_goes (.refl s) (by rw [ha, resolve?_of_resolve he]; rfl) _ _

/-- A change that needs no turn goes as its operation may. -/
theorem atOnce_goes (name : String) (make : SegmentId → Action)
    (ha : o.action? s = (s.resolve? name).map fun e => make e.id) :
    Goes s o (s.atOnce name make).1 (s.atOnce name make).2.1 :=
  goes_of_open fun hc => goes_of_resolve (fun hn => by rw [ha, hn]; rfl) fun e he =>
    conclude_goes hc (by rw [ha, resolve?_of_resolve he]; rfl)

/-- A merge goes as its operation may. -/
theorem mergeInTurn_goes (target source : String)
    (ha : o.action? s = (Request.merge target source).action? s) :
    Goes s o (s.mergeInTurn target source).1 (s.mergeInTurn target source).2.1 := by
  refine goes_of_open fun _ => goes_of_resolve (fun hn => ?_) fun t ht =>
    goes_of_resolve (fun hn => ?_) fun u hu => ?_
  · rw [ha, Request.action?, hn]
  · rw [ha, Request.action?, hn]
    split <;> simp_all
  · refine takeTurns_goes (.refl s) ?_ _ _
    rw [ha, Request.action?, resolve?_of_resolve ht, resolve?_of_resolve hu]

/-- An operation that asks for no change ends with any answer. -/
theorem goes_of_quiet {s' : Engine} (result : Except SegmentError Answer)
    (ha : o.action? s = none) (hq : o.request.changes = false) (alike : s.Alike s') :
    Goes s o s' (.finished result) :=
  .answers result ha (fun hc => absurd (hq.symm.trans hc) Bool.false_ne_true) alike

/-- A look-up begins as its operation may. -/
theorem beginLookup_goes (name : String) (ids : List AttributeId) (cache : Bool)
    (ha : o.action? s = none) (hq : o.request.changes = false) :
    Goes s o (s.beginLookup name ids cache).1 (s.beginLookup name ids cache).2.1 := by
  refine goes_of_open fun _ => goes_of_resolve (fun _ => ha) fun e he => ?_
  cases hr : e.state.requireReadable e.name with
  | error err => exact goes_of_quiet _ ha hq (.refl s)
  | ok u =>
    have hreadable := SegmentState.requireReadable_eq_ok.mp hr
    simp only [Phase.ofCheck]
    split
    · exact goes_of_quiet _ ha hq (.touch s _ _)
    · exact .begins ids cache he hreadable hq

/-- Opening a reader leaves a store that is alike. -/
theorem Alike.openReader (s : Engine) (name : String) (offset maxLength : Nat) :
    s.Alike (s.openReader name offset maxLength).1 := by
  unfold Engine.openReader
  split
  · exact refl s
  · simp only
    split
    · exact refl s
    · split
      · exact refl s
      · split
        · exact refl s
        · exact modifyEntry s _ fun _ _ =>
            ⟨rfl, rfl, .refl _, fun _ h => ⟨h.published, h.cached⟩⟩

/-- A read begins as its operation may. -/
theorem beginRead_goes (name : String) (offset maxLength : Nat) (ha : o.action? s = none)
    (hq : o.request.changes = false) :
    Goes s o (s.beginRead name offset maxLength).1 (s.beginRead name offset maxLength).2.1 :=
  goes_of_open fun _ => goes_of_quiet _ ha hq (.openReader s name offset maxLength)

/-- The beginning of an operation is one of the ways in which it can go on. -/
theorem begin_goes {barrier : Nat} (hphase : o.phase = .accepted) :
    Goes s o (s.begin barrier o.request).1 (s.begin barrier o.request).2.1 := by
  have ha : o.action? s = o.request.action? s := by
    rw [Operation.action?, hphase]
  revert ha
  generalize hrequest : o.request = request
  intro ha
  cases request with
  | create name updates => exact goes_of_open fun hc => conclude_goes hc ha
  | append name data updates =>
    exact atOnce_goes name (fun id => .append id data updates none) ha
  | appendAt name offset data updates =>
    exact inTurn_goes name (fun id => .append id data updates (some offset)) ha
  | update name updates => exact atOnce_goes name (fun id => .update name id updates) ha
  | lookup name ids cache => exact beginLookup_goes name ids cache ha (by rw [hrequest]; rfl)
  | read name offset maxLength =>
    exact beginRead_goes name offset maxLength ha (by rw [hrequest]; rfl)
  | info name wait =>
    simp only [begin, describe]
    split
    · exact .waits (.refl s)
    · exact goes_of_quiet _ ha (by rw [hrequest]; rfl) (.refl s)
  | merge target source => exact mergeInTurn_goes target source ha
  | sealing name => exact inTurn_goes name (fun id => .sealing name id) ha
  | delete name => exact inTurn_goes name (fun id => .delete name id) ha
  | truncate name offset => exact inTurn_goes name (fun id => .truncate name id offset) ha

/-- Every step of an operation is one of the ways in which it can go on. -/
theorem advancePhase_goes (s : Engine) (o : Operation) :
    Goes s o (s.advancePhase o).1 (s.advancePhase o).2.1 := by
  unfold advancePhase
  split
  · next hphase => exact begin_goes hphase
  · next action held place wanted hphase =>
    have ha : o.action? s = some action := by
      rw [Operation.action?, hphase]
    have halike := Alike.modifyTurns s place.segment fun l => l.takeUp place.ticket
    simp only
    split
    · exact takeTurns_goes halike ha _ _
    · exact .queues held place wanted ha halike
  · next hphase => exact .reads hphase
  · next hphase => exact .ends hphase
  · next hphase => exact .stays hphase

/-- What a step of an operation commits: nothing, or the one record of the change that was asked
for. Without a record it cannot succeed, unless there was nothing to do. -/
inductive Commits (s : Engine) (o : Operation) (phase : Phase) : List Record → Prop where
  /-- Nothing is committed. -/
  | nothing (idle : ∀ action answer, o.action? s = some action →
      phase = .finished (.ok answer) → ∃ s', s.Alike s' ∧ s'.propose action = .idle answer) :
      Commits s o phase []
  /-- One record is committed. -/
  | record {s' : Engine} {action : Action} {record : Record} {answer : Answer}
      (asked : o.action? s = some action) (alike : s.Alike s')
      (proposed : s'.propose action = .commit record answer)
      (done : phase = .finished (.ok answer)) : Commits s o phase [record]

variable {s' : Engine} {rs : List Record} {rest : Bytes} {phase : Phase}

/-- Without a change to make nothing is committed. -/
theorem Commits.of_none (ha : o.action? s = none) : Commits s o phase [] :=
  .nothing fun _ _ ha' => absurd (ha.symm.trans ha') (Option.some_ne_none _).symm

/-- A look-up that begins is in flight. -/
theorem Agrees.pending {a : Account} (h : s.Agrees a) {name : String} {e : Entry}
    (hr : s.resolve name = .ok e) (hreadable : e.state = .active ∨ e.state = .sealed)
    (ids : List AttributeId) :
    ∃ e', (s.touch e.id ids).entries.get? e.id = some e' ∧
      (AttributeLookup.ofTiers e.metadata.attributes ids).Pending e' (a.segments e.id) := by
  obtain ⟨g, -, hg, he, hd, -⟩ := h.of_resolve hr
  obtain ⟨e', he', halike⟩ := (Alike.touch s e.id ids).entry _ e he
  have hmem : ∀ x ∈ (AttributeLookup.ofTiers e.metadata.attributes ids).missing,
      e.metadata.attributes.resident? x = none ∧ x.isCore = false := by
    intro x hx
    have hx' := (List.mem_filter.mp hx).2
    simpa [AttributeId.isExtended] using hx'
  refine ⟨e', he', Nat.le_of_eq halike.attributes.epoch.symm, fun x hx => (hmem x hx).2,
    fun _ x hx => ?_, fun _ g' hg' => ?_⟩
  · rw [halike.attributes.unstored]
    exact (Option.or_eq_none_iff.mp (hmem x hx).1).2
  · obtain rfl := Option.some.inj (hg.symm.trans hg')
    exact hd.ne_merged hreadable

/-- A step of a valid operation keeps a sound engine sound and the operation valid. -/
theorem Sound.goes {found : SegmentId → AttributeId → AttributeValue} (h : s.Sound rs rest found)
    (hv : o.Valid s (.after rs found)) (hg : Goes s o s' phase) :
    ∃ new rest', s.Continues rs rest s' (rs ++ new) rest' found ∧
      ({ o with phase } : Operation).Valid s' (.after (rs ++ new) found) ∧
      Commits s o phase new := by
  have quiet : ∀ {rest' : Bytes}, s.Continues rs rest s' rs rest' found →
      ({ o with phase } : Operation).Valid s' (.after rs found) → Commits s o phase [] →
      ∃ new rest', s.Continues rs rest s' (rs ++ new) rest' found ∧
        ({ o with phase } : Operation).Valid s' (.after (rs ++ new) found) ∧
        Commits s o phase new := by
    intro rest' hcont hvalid hcommits
    exact ⟨[], rest', by rwa [List.append_nil], by rwa [List.append_nil], hcommits⟩
  cases hg with
  | waits alike => exact quiet (h.alike alike) trivial (.nothing fun _ _ _ hp => by cases hp)
  | queues held place wanted asked alike =>
    exact quiet (h.alike alike) (hv.means asked) (.nothing fun _ _ _ hp => by cases hp)
  | closes closed alike =>
    exact quiet (h.alike alike) trivial (.nothing fun _ _ _ hp => by cases hp)
  | answers result none fails alike =>
    exact quiet (h.alike alike) trivial (.of_none none)
  | @executes s₁ _ action asked alike isOpen after =>
    have hbefore := h.alike alike
    rcases hbefore.sound.execute action with
      ⟨record, answer, hp, hresult, hcont⟩ | ⟨hidle, rest', hcont⟩
    · have hafter := hcont.sound.alike after
      refine ⟨[record], [], (hbefore.trans hcont).trans hafter, trivial, ?_⟩
      exact .record asked alike hp (by rw [hresult])
    · refine quiet ((hbefore.trans hcont).trans (hcont.sound.alike after)) trivial
        (.nothing fun action' answer ha hp => ?_)
      obtain rfl := Option.some.inj (asked.symm.trans ha)
      rw [Phase.finished.injEq] at hp
      exact ⟨s₁, alike, hidle answer hp⟩
  | begins ids cache found readable =>
    exact quiet (h.alike (.touch s _ ids)) (h.agrees.pending found readable ids)
      (.nothing fun _ _ _ hp => by cases hp)
  | @reads id l cache hphase =>
    rw [Operation.Valid, hphase] at hv
    obtain ⟨e, he, hl⟩ := hv
    refine quiet h.refl ⟨e, he, hl.read fun g hg => ?_⟩ (.nothing fun _ _ _ hp => by cases hp)
    have hshows := h.agrees.segment id
    rw [he, hg] at hshows
    obtain ⟨e', he', -, -, hc⟩ := hshows.of_account
    exact Option.some.inj he' ▸ hc
  | @ends id l cache values hphase =>
    have ha : o.action? s = none := by
      rw [Operation.action?, hphase]
    rw [Operation.Valid, hphase] at hv
    obtain ⟨e, he, hl⟩ := hv
    have hfollows := h.agrees.finishLookup he hl cache
    refine quiet (h.follows hfollows ?_ fun _ ht => ht.finishLookup he l cache values) ?_
      (.of_none ha)
    · unfold Engine.finishLookup
      simp only
      split <;> rfl
    · unfold Engine.finishLookup
      simp only
      split <;> exact trivial
  | stays hphase =>
    have ha : o.action? s = none := by
      rw [Operation.action?, hphase]
    exact quiet h.refl trivial (.of_none ha)

end Engine

end Segments
