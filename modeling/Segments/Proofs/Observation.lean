import Segments.Proofs.Operations

/-!
# What callers can tell of a store

Callers see the names, the segments they stand for, and the answers to look-ups of attributes.
All of it follows from the account of the journal, so engines that agree with the same account
cannot be told apart.
-/

namespace Segments

/-- What can be seen of a segment, whatever is in its caches. -/
structure SegmentView where
  /-- The number. -/
  id : SegmentId
  /-- The name. -/
  name : String
  /-- The stage of life. -/
  state : SegmentState
  /-- The segment that took over the content. -/
  mergedInto : Option SegmentId
  /-- The length. -/
  length : Nat
  /-- The lowest readable offset. -/
  truncationOffset : Nat
  /-- The bytes. -/
  data : Bytes
  /-- The core attributes with a value. -/
  core : AttributeId → Option AttributeValue

/-- What can be seen of an entry. -/
def Entry.view (e : Entry) : SegmentView where
  id := e.metadata.id
  name := e.metadata.name
  state := e.metadata.state
  mergedInto := e.metadata.mergedInto
  length := e.metadata.length
  truncationOffset := e.metadata.truncationOffset
  data := e.data
  core x := if x.isCore then e.metadata.attributes.cache.peek x else none

namespace Engine

/-- An operation after some steps in which nothing else happens. -/
def alone (s : Engine) (o : Operation) : Nat → Operation
  | 0 => o
  | n + 1 => (s.advance o).1.alone (s.advance o).2.1 n

/-- How a look-up of attributes ends that nothing comes between: it has a phase in memory, one in
the attribute store, and one in memory again. -/
def answerOf (s : Engine) (name : String) (ids : List AttributeId) (cache : Bool) : Phase :=
  (s.alone ⟨.lookup name ids cache, 0, [], .accepted⟩ 3).phase

/-- The answer to a look-up of attributes, given the values that they have. -/
def answerBy (s : Engine) (value : Entry → AttributeId → AttributeValue) (name : String)
    (ids : List AttributeId) : Except SegmentError Answer :=
  match s.resolve name with
  | .error err => .error err
  | .ok e =>
    match e.state.requireReadable e.name with
    | .error err => .error err
    | .ok () => .ok (.attributes (ids.eraseDups.map fun x => (x, value e x)))

/-- Stores that callers cannot tell apart. -/
structure SameView (s t : Engine) : Prop where
  /-- Each name stands for the same segment. -/
  names : ∀ n, s.names.get? n = t.names.get? n
  /-- The next segment gets the same number. -/
  nextId : s.nextId = t.nextId
  /-- Each segment is there in both or in neither, with the same properties and bytes. -/
  segments : ∀ id, (s.live? id).map Entry.view = (t.live? id).map Entry.view
  /-- Unless they are shut down, look-ups of attributes have the same answers. -/
  answers : s.closed = false → t.closed = false →
    ∀ name ids cache, s.answerOf name ids cache = t.answerOf name ids cache

end Engine

namespace SegmentAccount

/-- What can be seen of a segment with an account. -/
def view (g : SegmentAccount) (id : SegmentId) : SegmentView where
  id := id
  name := g.name
  state := g.state
  mergedInto := g.mergedInto
  length := g.length
  truncationOffset := g.truncationOffset
  data := g.data
  core x := if x.isCore ∧ g.state ≠ .merged then kept (g.attributes x) else none

end SegmentAccount

namespace Account

/-- The answer to a look-up of attributes. -/
def answer (a : Account) (name : String) (ids : List AttributeId) :
    Except SegmentError Answer :=
  match (a.names name).bind a.segments with
  | none => .error (.segmentNotFound name)
  | some g =>
    match g.state.requireReadable g.name with
    | .error e => .error e
    | .ok () => .ok (.attributes (ids.eraseDups.map fun x => (x, g.attributes x)))

end Account

namespace AttributeLookup

variable {t : AttributeTiers} {store : AttributeStore} {segment : SegmentId}
  {committed : AttributeId → AttributeValue}

theorem mem_missing_ofTiers {ids : List AttributeId} {x : AttributeId} :
    x ∈ (ofTiers t ids).missing ↔ x ∈ ids ∧ t.resident? x = none ∧ x.isCore = false := by
  simp [ofTiers, AttributeId.isExtended]

/-- A look-up is answered by committed values, but for what memory did not know. -/
theorem answer_eq (h : t.Coherent store segment committed) (ids : List AttributeId)
    {values : AttributeValues}
    (hout : ∀ x, x ∉ (ofTiers t ids).missing → values.lookup x = none) :
    (ofTiers t ids).answer values = ids.eraseDups.map fun x =>
      (x, if x ∈ (ofTiers t ids).missing then (values.lookup x).getD nullValue
        else committed x) := by
  unfold answer
  refine List.map_congr_left fun x hx => Prod.ext rfl ?_
  have hmem : x ∈ ids := List.mem_eraseDups.mp hx
  have hfound : (ofTiers t ids).found.lookup x = t.resident? x := by
    rw [ofTiers, AttributeStore.lookup_filterMap, if_pos hmem]
  rw [hfound]
  by_cases hmissing : x ∈ (ofTiers t ids).missing
  · rw [if_pos hmissing, (mem_missing_ofTiers.mp hmissing).2.1, Option.none_or]
  · rw [if_neg hmissing, hout x hmissing]
    cases hr : t.resident? x with
    | some v => exact h.resident hr
    | none =>
      have hcore : x.isCore = true := by
        simpa [mem_missing_ofTiers, hmem, hr] using hmissing
      have hvalue := h.value_eq x
      simp only [AttributeTiers.value, hr, hcore, ↓reduceIte] at hvalue
      exact hvalue

/-- With the committed values of what is missing, a look-up is answered by committed values. -/
theorem answer_ofTiers (h : t.Coherent store segment committed) (ids : List AttributeId)
    {values : AttributeValues}
    (hin : ∀ x ∈ (ofTiers t ids).missing, (values.lookup x).getD nullValue = committed x)
    (hout : ∀ x, x ∉ (ofTiers t ids).missing → values.lookup x = none) :
    (ofTiers t ids).answer values = ids.eraseDups.map fun x => (x, committed x) := by
  rw [answer_eq h ids hout]
  refine List.map_congr_left fun x _ => Prod.ext rfl ?_
  by_cases hmissing : x ∈ (ofTiers t ids).missing
  · exact (if_pos hmissing).trans (hin x hmissing)
  · exact if_neg hmissing

/-- What the store has of the missing attributes is committed. -/
theorem lookup_missing (h : t.Coherent store segment committed) (ids : List AttributeId) :
    ∀ x ∈ (ofTiers t ids).missing,
      ((store.lookup segment (ofTiers t ids).missing).lookup x).getD nullValue = committed x := by
  intro x hx
  rw [AttributeStore.lookup_lookup, if_pos hx]
  have hr : t.resident? x = none ∧ x.isCore = false := by
    simpa [AttributeId.isExtended] using (List.mem_filter.mp hx).2
  have hback := h.backed x hr.2
  rwa [(Option.or_eq_none_iff.mp hr.1).2] at hback

/-- Settling one attribute answers its committed value, or nothing when it has none. -/
theorem answers_settle (h : t.Coherent store segment committed) {fetched : AttributeValues}
    {x : AttributeId}
    (hf : t.unstored.get? x = none → (fetched.lookup x).getD nullValue = committed x)
    (answers : AttributeValues) :
    ∃ more, (settle fetched (t, answers) x).2 = answers ++ more ∧
      ((more = [] ∧ committed x = nullValue) ∨ more = [(x, committed x)]) := by
  cases hr : t.resident? x with
  | some v => exact ⟨[(x, v)], by simp only [settle, hr], Or.inr (by rw [h.resident hr])⟩
  | none =>
    have hvalue := hf (Option.or_eq_none_iff.mp hr).2
    cases hl : fetched.lookup x with
    | none =>
      rw [hl] at hvalue
      exact ⟨[], by simp only [settle, hr, hl, List.append_nil], Or.inl ⟨rfl, hvalue.symm⟩⟩
    | some v =>
      rw [hl, Option.getD_some] at hvalue
      exact ⟨[(x, v)], by simp only [settle, hr, hl], Or.inr (by rw [hvalue])⟩

/-- The answers while values are made resident: committed values of what was asked for, all but
those that are none. -/
theorem answers_foldl_settle {ids : List AttributeId} {fetched : AttributeValues}
    (h : t.Coherent store segment committed) (hx : ∀ x ∈ ids, x.isCore = false)
    (hf : ∀ x ∈ ids, t.unstored.get? x = none → (fetched.lookup x).getD nullValue = committed x)
    (answers : AttributeValues) :
    ∃ more, (ids.foldl (settle fetched) (t, answers)).2 = answers ++ more ∧
      (∀ e ∈ more, e.1 ∈ ids ∧ e.2 = committed e.1) ∧
      ∀ x ∈ ids, committed x ≠ nullValue → (x, committed x) ∈ more := by
  induction ids generalizing t answers with
  | nil => exact ⟨[], by simp, nofun, nofun⟩
  | cons x ids ih =>
    have hx' := hx x List.mem_cons_self
    have hf' := hf x List.mem_cons_self
    have hnext := coherent_settle h hx' (fun hun v hv => by
      have hvalue := hf' hun
      rwa [hv] at hvalue) answers
    have hun := (settle_same fetched t answers x).1
    obtain ⟨one, hone, hvalue⟩ := answers_settle h hf' answers
    rw [List.foldl_cons]
    generalize settle fetched (t, answers) x = next at hnext hun hone
    obtain ⟨t', answers'⟩ := next
    obtain rfl : answers' = answers ++ one := hone
    obtain ⟨more, hmore, hall, hcover⟩ := ih hnext (fun y hy => hx y (List.mem_cons_of_mem _ hy))
      (fun y hy hy' => hf y (List.mem_cons_of_mem _ hy) (hun ▸ hy')) (answers ++ one)
    refine ⟨one ++ more, by rw [hmore, List.append_assoc], fun e he => ?_, fun y hy hne => ?_⟩
    · rcases List.mem_append.mp he with hin | hin
      · rcases hvalue with ⟨rfl, -⟩ | rfl
        · cases hin
        · rw [List.mem_singleton.mp hin]
          exact ⟨List.mem_cons_self, rfl⟩
      · exact ⟨List.mem_cons_of_mem _ (hall e hin).1, (hall e hin).2⟩
    · rcases List.mem_cons.mp hy with rfl | hin
      · rcases hvalue with ⟨-, hnull⟩ | rfl
        · exact absurd hnull hne
        · exact List.mem_append_left _ List.mem_cons_self
      · exact List.mem_append_right _ (hcover y hin hne)

theorem mem_of_lookup {β : Type} {l : List (AttributeId × β)} {x : AttributeId} {v : β}
    (h : l.lookup x = some v) : (x, v) ∈ l := by
  obtain ⟨front, back, rfl, -⟩ := List.lookup_eq_some_iff.mp h
  simp

/-- What is read back while values are made resident: the committed values of what was asked for. -/
theorem lookup_foldl_settle {ids : List AttributeId} {fetched : AttributeValues}
    (h : t.Coherent store segment committed) (hx : ∀ x ∈ ids, x.isCore = false)
    (hf : ∀ x ∈ ids, t.unstored.get? x = none →
      (fetched.lookup x).getD nullValue = committed x) :
    (∀ x ∈ ids, ((ids.foldl (settle fetched) (t, [])).2.lookup x).getD nullValue = committed x) ∧
      ∀ x, x ∉ ids → (ids.foldl (settle fetched) (t, [])).2.lookup x = none := by
  obtain ⟨more, hmore, hall, hcover⟩ := answers_foldl_settle h hx hf []
  rw [hmore, List.nil_append]
  refine ⟨fun x hin => ?_, fun x hout => ?_⟩
  · cases hl : more.lookup x with
    | some v => exact (hall _ (mem_of_lookup hl)).2
    | none =>
      by_contra hne
      have hmem := hcover x hin (Ne.symm hne)
      rw [List.lookup_eq_none_iff] at hl
      simpa using hl _ hmem
  · rw [Option.eq_none_iff_forall_ne_some]
    exact fun v hv => hout (hall _ (mem_of_lookup hv)).1

/-- In its own epoch the last phase of a look-up is answered by committed values too. -/
theorem answer_cacheFetched (h : t.Coherent store segment committed) {t' : AttributeTiers}
    (halike : t.Alike t') (ids : List AttributeId) (name : String) (maxCached : Nat) :
    (ofTiers t ids).answer ((ofTiers t ids).cacheFetched t' store segment name maxCached
      (store.lookup segment (ofTiers t ids).missing)).2.1 =
        ids.eraseDups.map fun x => (x, committed x) := by
  have hepoch : t'.epoch = (ofTiers t ids).epoch := halike.epoch
  obtain ⟨hin, hout⟩ := lookup_foldl_settle (halike.coherent h)
    (fun x hx => (mem_missing_ofTiers.mp hx).2.2) (fun x hx _ => lookup_missing h ids x hx)
  simp only [cacheFetched, hepoch, ↓reduceIte]
  exact answer_ofTiers h ids hin hout

/-- The last phase of a look-up that read the store answers what it missed by committed values. -/
theorem Read.lookup_cacheFetched {l : AttributeLookup} {values : AttributeValues} {e : Entry}
    {g : SegmentAccount} (h : l.Read values e (some g))
    (hc : e.metadata.attributes.Coherent store segment g.attributes) (name : String)
    (maxCached : Nat) {current : AttributeValues} (hcurrent : (l.cacheFetched
      e.metadata.attributes store segment name maxCached values).2.1 = current) :
    (∀ x ∈ l.missing, (current.lookup x).getD nullValue = g.attributes x) ∧
      ∀ x, x ∉ l.missing → current.lookup x = none := by
  rw [← hcurrent]
  unfold cacheFetched
  by_cases he : e.metadata.attributes.epoch = l.epoch
  · simp only [he, ↓reduceIte]
    exact lookup_foldl_settle hc h.extended fun x hx _ => h.current he g rfl x hx
  · simp only [he, ↓reduceIte]
    refine lookup_foldl_settle hc h.extended fun x hx hun => ?_
    have hback := hc.backed x (h.extended x hx)
    rw [hun] at hback
    rw [AttributeStore.lookup_lookup, if_pos hx]
    exact hback

end AttributeLookup

namespace Engine

variable {s t : Engine} {a : Account}

/-- What can be seen of the segments follows from the account. -/
theorem Agrees.view (h : s.Agrees a) (hw : a.WellFormed) (id : SegmentId) :
    (s.live? id).map Entry.view = (a.segments id).map fun g => g.view id := by
  cases hg : a.segments id with
  | none =>
    cases hl : s.live? id with
    | none => rfl
    | some e =>
      obtain ⟨g, hg', -⟩ := h.of_live hl
      rw [hg] at hg'
      cases hg'
  | some g =>
    obtain ⟨e, hl, -, hown, hd, hc⟩ := h.live hw hg
    have hcore : ∀ x, e.view.core x = (g.view id).core x := by
      intro x
      simp only [Entry.view, SegmentAccount.view]
      cases hx : x.isCore with
      | false => simp
      | true =>
        by_cases hm : g.state = .merged
        · have hnone := (Option.or_eq_none_iff.mp (hc.released hm x)).1
          simp [hm, hnone]
        · simp [hm, (hc.coherent hm).core x hx]
    rw [hl, Option.map_some, Option.map_some, Option.some.injEq, SegmentView.mk.injEq]
    exact ⟨hown, hd.name, hd.state, hd.mergedInto, hd.length, hd.truncationOffset, hd.data,
      funext hcore⟩

theorem alone_of_finished {o : Operation} {result : Except SegmentError Answer}
    (ho : o.phase = .finished result) (n : Nat) : (s.alone o n).phase = .finished result := by
  induction n generalizing s o with
  | zero => exact ho
  | succ n ih =>
    rw [alone]
    refine ih ?_
    simp only [advance, advancePhase, ho]

theorem alone_succ (s : Engine) (o : Operation) (n : Nat) :
    s.alone o (n + 1) = (s.advance o).1.alone (s.advance o).2.1 n := rfl

/-- A look-up that memory cannot answer goes through the attribute store. -/
theorem alone_of_fetching {o : Operation} {id : SegmentId} {l : AttributeLookup} {cache : Bool}
    (ho : o.phase = .fetching id l cache) :
    (s.alone o 2).phase = (s.finishLookup id l cache (s.store.lookup id l.missing)).2.1 := by
  have hfetched : s.advance o =
      (s, { o with phase := .fetched id l cache (s.store.lookup id l.missing) }, []) := by
    simp only [advance, advancePhase, ho, settle, Phase.isFinished, Bool.false_eq_true, ↓reduceIte]
  rw [alone_succ, hfetched, alone_succ]
  simp only [alone, advance, advancePhase]

theorem Agrees.resolve_of_name (h : s.Agrees a) (hw : a.WellFormed) {name : String}
    {id : SegmentId} (hn : a.names name = some id) :
    ∃ e g, s.resolve name = .ok e ∧ a.segments id = some g ∧ s.entries.get? id = some e ∧
      e.metadata.id = id ∧ e.Depicts g ∧ e.Carries s.store id g := by
  obtain ⟨g, hg, -⟩ := hw.name name id hn
  obtain ⟨e, hl, he, hown, hd, hc⟩ := h.live hw hg
  have hname : s.names.get? name = some id := (h.names name).trans hn
  refine ⟨e, g, ?_, hg, he, hown, hd, hc⟩
  simp only [resolve, resolve?, hname, hl]

theorem Agrees.resolve_of_noName (h : s.Agrees a) {name : String} (hn : a.names name = none) :
    s.resolve name = .error (.segmentNotFound name) := by
  have hname : s.names.get? name = none := (h.names name).trans hn
  simp only [resolve, resolve?, hname]

/-- The last phase of a look-up that nothing came between. -/
theorem finishLookup_touch {id : SegmentId} {e : Entry} {committed : AttributeId → AttributeValue}
    (he : s.entries.get? id = some e)
    (hc : e.metadata.attributes.Coherent s.store id committed) (ids : List AttributeId)
    (cache : Bool) :
    ((s.touch id ids).finishLookup id (.ofTiers e.metadata.attributes ids) cache
      (s.store.lookup id (AttributeLookup.ofTiers e.metadata.attributes ids).missing)).2.1 =
        .finished (.ok (.attributes (ids.eraseDups.map fun x => (x, committed x)))) := by
  obtain ⟨e', he', halike⟩ := (Alike.touch s id ids).entry id e he
  unfold finishLookup
  rw [entry_eq he']
  simp only
  split
  · have hanswer := AttributeLookup.answer_cacheFetched hc halike.attributes ids e'.name
      (s.touch id ids).config.maxCachedAttributes
    simp only [← hanswer]
    rfl
  · simp only [AttributeLookup.answer_ofTiers hc ids (AttributeLookup.lookup_missing hc ids)
      fun x hx => by rw [AttributeStore.lookup_lookup, if_neg hx]]

/-- On an open store a look-up of a segment that can be read is answered at once if memory knows
everything, and goes on to the attribute store otherwise. -/
theorem beginLookup_of_resolve (hopen : s.closed = false) {name : String} {e : Entry}
    (hr : s.resolve name = .ok e) {u : Unit} (hread : e.state.requireReadable e.name = .ok u)
    (ids : List AttributeId) (cache : Bool) : s.beginLookup name ids cache =
      (s.touch e.id ids,
        if (AttributeLookup.ofTiers e.metadata.attributes ids).missing.isEmpty then
          .finished
            (.ok (.attributes ((AttributeLookup.ofTiers e.metadata.attributes ids).answer [])))
        else .fetching e.id (.ofTiers e.metadata.attributes ids) cache, []) := by
  rw [beginLookup, requireOpen_eq, hopen, hr]
  simp only [Bool.false_eq_true, ↓reduceIte, Phase.ofCheck, hread]
  split <;> rfl

/-- On an open store a look-up is answered by the values that the tiers of the segment agree on. -/
theorem answerOf_of_coherent (hopen : s.closed = false)
    (value : Entry → AttributeId → AttributeValue) {name : String}
    (hcoherent : ∀ e, s.resolve name = .ok e → e.state.requireReadable e.name = .ok () →
      s.entries.get? e.id = some e ∧ e.metadata.attributes.Coherent s.store e.id (value e))
    (ids : List AttributeId) (cache : Bool) :
    s.answerOf name ids cache = .finished (s.answerBy value name ids) := by
  rw [answerOf, alone_succ]
  have hbegin : (s.advance ⟨.lookup name ids cache, 0, [], .accepted⟩).2.1.phase =
      (s.beginLookup name ids cache).2.1 := rfl
  unfold answerBy
  cases hr : s.resolve name with
  | error err =>
    refine alone_of_finished ?_ 2
    rw [hbegin, beginLookup, requireOpen_eq, hopen, hr]
    rfl
  | ok e =>
    cases hread : e.state.requireReadable e.name with
    | error err =>
      refine alone_of_finished ?_ 2
      rw [hbegin, beginLookup, requireOpen_eq, hopen, hr]
      simp only [Bool.false_eq_true, ↓reduceIte, Phase.ofCheck, hread]
    | ok u =>
      obtain ⟨he, hc⟩ := hcoherent e hr hread
      have hbegins := beginLookup_of_resolve hopen hr hread ids cache
      by_cases hmissing : (AttributeLookup.ofTiers e.metadata.attributes ids).missing.isEmpty
      · refine alone_of_finished ?_ 2
        have hnil := List.isEmpty_iff.mp hmissing
        rw [hbegin, hbegins, if_pos hmissing, AttributeLookup.answer_ofTiers hc ids
          (fun x hx => by rw [hnil] at hx; cases hx) fun _ _ => rfl]
        simp only [hread]
      · rw [if_neg hmissing] at hbegins
        have hadvance : s.advance ⟨.lookup name ids cache, 0, [], .accepted⟩ = (s.touch e.id ids,
            ⟨.lookup name ids cache, 0, [],
              .fetching e.id (.ofTiers e.metadata.attributes ids) cache⟩, []) := by
          simp only [advance, advancePhase, begin, hbegins, settle, Phase.isFinished,
            Bool.false_eq_true, ↓reduceIte]
        rw [hadvance, alone_of_fetching rfl]
        simp only [hread]
        exact finishLookup_touch he hc ids cache

/-- Look-ups on an open store are answered as the account says. -/
theorem Agrees.answerOf (h : s.Agrees a) (hw : a.WellFormed) (hopen : s.closed = false)
    (name : String) (ids : List AttributeId) (cache : Bool) :
    s.answerOf name ids cache = .finished (a.answer name ids) := by
  cases hn : a.names name with
  | none =>
    have hr := h.resolve_of_noName hn
    rw [answerOf_of_coherent hopen (fun _ => noValues) (fun e he => by rw [hr] at he; cases he),
      answerBy, hr, Account.answer, hn]
    rfl
  | some id =>
    obtain ⟨e, g, hr, hg, he, rfl, hd, hc⟩ := h.resolve_of_name hw hn
    have hread : e.state.requireReadable e.name = g.state.requireReadable g.name := by
      rw [Entry.state, Entry.name, hd.state, hd.name]
    rw [answerOf_of_coherent hopen (fun _ => g.attributes) fun e' hr' hread' => ?_]
    · rw [answerBy, hr, Account.answer, hn, Option.bind_some, hg]
      simp only [hread]
    · obtain rfl := Except.ok.inj (hr.symm.trans hr')
      exact ⟨he, hc.coherent (SegmentState.ne_merged_of_readable (hread.symm.trans hread'))⟩

/-- Engines that agree with the same account cannot be told apart. -/
theorem Agrees.sameView (hs : s.Agrees a) (ht : t.Agrees a) (hw : a.WellFormed) :
    s.SameView t where
  names n := (hs.names n).trans (ht.names n).symm
  nextId := hs.nextId.trans ht.nextId.symm
  segments id := (hs.view hw id).trans (ht.view hw id).symm
  answers hs' ht' name ids cache :=
    (hs.answerOf hw hs' name ids cache).trans (ht.answerOf hw ht' name ids cache).symm

end Engine

end Segments
