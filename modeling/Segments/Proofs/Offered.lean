import Segments.Proofs.Calls
import Segments.Proofs.Stability

/-!
# What a configuration lets into a store

Requests are checked against the configuration when they are accepted, records are not: neither
the journal nor its replay looks at a limit. So all that the files of a store have within the limits
of its configuration was offered to them by accepted operations, a record that the journal failed to
take and has all the same included. The files can always be opened again, whatever the
configuration.
-/

namespace Segments

namespace OperationLog

variable {log : OperationLog} {P : Record → Prop}

/-- All that was offered to the journal is of a certain kind: the records, and what is left of a
record that was not taken. -/
def Offered (log : OperationLog) (P : Record → Prop) : Prop :=
  ∃ rs rest, log.Holds rs rest ∧ (∀ r ∈ rs, P r) ∧
    (rest ≠ [] → ∃ r, P r ∧ r.Framable ∧ rest <+: Frame.whole r)

/-- A journal that holds records of a kind and nothing else. -/
theorem Holds.offered {rs : List Record} (h : log.Holds rs []) (hrs : ∀ r ∈ rs, P r) :
    log.Offered P := ⟨rs, [], h, hrs, fun hne => absurd rfl hne⟩

/-- Another record of the kind is offered, and taken or not. -/
theorem Offered.append (h : log.Offered P) {r : Record} (hr : P r) :
    (log.append r).1.Offered P := by
  obtain ⟨rs, rest, hholds, hrs, hrest⟩ := h
  rcases hholds.append r with ⟨n, -, htaken, -⟩ | ⟨e, -, rest', hcut, hfailed, -⟩
  · refine htaken.offered fun r' hr' => ?_
    rcases List.mem_append.mp hr' with hold | hnew
    · exact hrs r' hold
    · rwa [List.mem_singleton.mp hnew]
  · refine ⟨rs, rest', hfailed, hrs, fun hne => ?_⟩
    rcases hcut with rfl | ⟨hframable, hprefix⟩
    · exact hrest hne
    · exact ⟨r, hr, hframable, hprefix⟩

/-- A scan finds only records of the kind, even if it finds one that was not taken. -/
theorem Offered.of_mem_records (h : log.Offered P) : ∀ r ∈ log.records, P r := by
  obtain ⟨rs, rest, hholds, hrs, hrest⟩ := h
  by_cases htorn : Frame.Torn rest
  · rwa [records_of_bytes hholds.framable hholds.bytes htorn]
  · have hne : rest ≠ [] := by
      rintro rfl
      exact htorn Frame.torn_nil
    obtain ⟨r, hr, hframable, hprefix⟩ := hrest hne
    have hwhole := (Frame.torn_or_whole hframable hprefix).resolve_left htorn
    have hbytes : log.bytes = Frame.wholes (rs ++ [r]) ++ [] := by
      rw [hholds.bytes, hwhole, Frame.wholes_append, Frame.wholes_singleton, List.append_nil]
    rw [records_of_bytes (hholds.framable_snoc hframable) hbytes Frame.torn_nil]
    exact List.forall_mem_append.mpr ⟨hrs, List.forall_mem_singleton.mpr hr⟩

end OperationLog

namespace Record

/-- The name that a record gives to a new segment is valid under a configuration. -/
def NamedWithin (config : Config) : Record → Prop
  | create _ name _ => SegmentName.validate name config.maxNameLength = .ok ()
  | _ => True

end Record

namespace Engine

variable {s s' : Engine} {P : Record → Prop}

theorem Rests.offered (h : s.Rests s') (ho : s.log.Offered P) : s'.log.Offered P := by
  obtain ⟨rs, rest, hholds, hrs, hrest⟩ := ho
  exact ⟨rs, rest, h.holds rs rest hholds, hrs, hrest⟩

/-- Making a change offers the record that it proposes. -/
theorem execute_offered (h : s.log.Offered P) {action : Action}
    (hP : ∀ record, s.Proposes action record → P record) : (s.execute action).1.log.Offered P := by
  have htouched := (Alike.touchConsulted s action).rests.offered h
  have hexecutes := s.executes action
  generalize (s.execute action).1 = s', (s.execute action).2.2 = result at hexecutes ⊢
  cases hexecutes with
  | refused proposed => exact htouched
  | idles proposed => exact htouched
  | @fails record answer log e proposed appended =>
    have hoffered := htouched.append (hP record (proposes_iff.mpr ⟨answer, proposed⟩))
    rwa [appended] at hoffered
  | @commits record answer log n proposed appended =>
    have hoffered := htouched.append (hP record (proposes_iff.mpr ⟨answer, proposed⟩))
    rw [appended] at hoffered
    rwa [enact_log]

/-- A step of an operation offers at most the record of the change that was asked for. -/
theorem Goes.offered {o : Operation} {phase : Phase} (h : Goes s o s' phase)
    (ho : s.log.Offered P)
    (hP : ∀ (s₁ : Engine) (action : Action) (record : Record), o.action? s = some action →
      s₁.Proposes action record → P record) :
    s'.log.Offered P := by
  cases h with
  | waits alike => exact alike.rests.offered ho
  | queues held place wanted asked alike => exact alike.rests.offered ho
  | closes closed alike => exact alike.rests.offered ho
  | answers result none fails alike => exact alike.rests.offered ho
  | @executes s₁ _ action asked alike isOpen after =>
    exact after.rests.offered
      (execute_offered (alike.rests.offered ho) fun record => hP s₁ action record asked)
  | begins ids cache found readable => exact (Alike.touch s _ ids).rests.offered ho
  | reads phase => exact ho
  | ends phase => exact (Rests.finishLookup s _ _ _ _).offered ho
  | stays phase => exact ho

/-- A change that was asked for under a valid name gives no other name. -/
theorem Proposes.namedWithin {config : Config} {request : Request} {action : Action}
    {record : Record} (h : s.Proposes action record) (hmeans : request.Means action)
    (hnames : Request.checkNames config request.names = .ok ()) : record.NamedWithin config := by
  cases h with
  | create free evaluated =>
    cases request with
    | create name updates =>
      obtain ⟨rfl, -⟩ := hmeans
      exact Request.checkNames_singleton.mp hnames
    | _ => exact hmeans.elim
  | _ => trivial

end Engine

/-- Whether a store is opened with no other configuration. -/
def Stride.Keeps (config : Config) : Stride → Prop
  | reopened config' .. => config' = config
  | _ => True

theorem Contents.config_of_openStore {c : Contents} {config : Config} {clock : AttributeValue}
    {s : Engine} (h : (c.openStore config clock).2.2 = .ok s) : s.config = config := by
  simp only [openStore] at h
  split at h
  · cases h
  · obtain ⟨r, -, rfl⟩ := Engine.eq_ofReplayed_of_openStore h
    rfl

namespace Traffic

open Engine

variable {t : Traffic} {config : Config} {rs : List Record} {rest : Bytes} {left : AttributeStore}

/-- All that is asked of a store is what its configuration permits, and so are the names in its
journal. -/
structure Conforms (t : Traffic) (config : Config) : Prop where
  /-- The store has the configuration. -/
  configured : t.engine.config = config
  /-- The names in requests are valid. -/
  names : ∀ o ∈ t.operations, Request.checkNames config o.request.names = .ok ()
  /-- So are those that were offered to the journal. -/
  offered : t.engine.log.Offered (Record.NamedWithin config)

/-- A stride leaves the requests of operations as they are, and brings one in only if it is
valid. -/
theorem request_of_mem_stride (t : Traffic) (x : Stride) {o : Operation}
    (ho : o ∈ (t.stride x).operations) : (∃ c ∈ t.operations, c.request = o.request) ∨
      ∃ timeout, o.request.validate t.engine.config timeout = .ok () := by
  have hset : ∀ {i : Nat} {c c' : Operation}, o ∈ t.operations.set i c' →
      t.operations[i]? = some c → c'.request = c.request →
      ∃ c ∈ t.operations, c.request = o.request := by
    intro i c c' ho hc hrequest
    rcases List.mem_or_eq_of_mem_set ho with hold | rfl
    · exact ⟨o, hold, rfl⟩
    · exact ⟨c, List.mem_of_getElem? hc, hrequest.symm⟩
  cases x with
  | reopened config left clock =>
    simp only [stride] at ho
    split at ho
    · cases ho
    · exact Or.inl ⟨o, ho, rfl⟩
  | moved m =>
    cases m with
    | submit request timeout =>
      simp only [stride, step] at ho
      split at ho
      · exact Or.inl ⟨o, ho, rfl⟩
      · next engine c haccept =>
        obtain ⟨hvalid, hrequest, -⟩ := accept_eq_ok haccept
        rcases List.mem_append.mp ho with hold | hnew
        · exact Or.inl ⟨o, hold, rfl⟩
        · obtain rfl := List.mem_singleton.mp hnew
          exact Or.inr ⟨timeout, hrequest ▸ hvalid⟩
    | advance i =>
      simp only [stride, step] at ho
      split at ho
      · exact Or.inl ⟨o, ho, rfl⟩
      · next c hc => exact Or.inl (hset ho hc rfl)
    | pause i =>
      simp only [stride, step, pause] at ho
      split at ho
      · exact Or.inl ⟨o, ho, rfl⟩
      · next c hc => exact Or.inl (hset ho hc rfl)
    | abandon i error =>
      simp only [stride, step] at ho
      split at ho
      · exact Or.inl ⟨o, ho, rfl⟩
      · next c hc =>
        split at ho
        · exact Or.inl ⟨o, ho, rfl⟩
        · exact Or.inl (hset ho hc rfl)
    | _ => exact Or.inl ⟨o, ho, rfl⟩

theorem Conforms.names_stride (h : t.Conforms config) (x : Stride) :
    ∀ o ∈ (t.stride x).operations, Request.checkNames config o.request.names = .ok () := by
  intro o ho
  rcases t.request_of_mem_stride x ho with ⟨c, hc, hrequest⟩ | ⟨timeout, hvalid⟩
  · exact hrequest ▸ h.names c hc
  · rw [h.configured] at hvalid
    exact (Request.validate_eq_ok_iff.mp hvalid).1

/-- A step of an operation offers only what its request permits. -/
theorem Conforms.offered_advance (h : t.Conforms config) (hs : t.Stands rs rest left) (i : Nat) :
    (t.step (.advance i)).engine.log.Offered (Record.NamedWithin config) := by
  simp only [step]
  cases ho : t.operations[i]? with
  | none => exact h.offered
  | some o =>
    have hmem := List.mem_of_getElem? ho
    have hsettled : (t.engine.advancePhase o).1.Alike (t.engine.advance o).1 :=
      .settle _ { o with phase := (t.engine.advancePhase o).2.1 }
    refine hsettled.rests.offered ((t.engine.advancePhase_goes o).offered h.offered
      fun s₁ action record ha hproposes => ?_)
    exact hproposes.namedWithin ((hs.sound.valid o hmem).means ha) (h.names o hmem)

/-- A store that is opened again over its journal has the records of before, and the one that was
not taken if it is whole. -/
theorem Conforms.offered_reopened (h : t.Conforms config) (hs : t.Stands rs rest left)
    {config' : Config} {contents : AttributeContents} {clock : AttributeValue} {s : Engine}
    (hopened : (Contents.openStore ⟨t.engine.log.bytes, contents⟩ config' clock).2.2 = .ok s) :
    s.log.Offered (Record.NamedWithin config) := by
  obtain ⟨rs', rest', ht⟩ := hs.traced
  obtain ⟨new, store, events, hrecords, -, hsound, -⟩ := hs.sound.engine.reopens ht hopened
  exact hsound.holds.offered (hrecords ▸ h.offered.of_mem_records)

/-- Whatever happens to a store, it goes on to conform to its configuration. -/
theorem Conforms.stride (h : t.Conforms config) (hs : t.Stands rs rest left) {x : Stride}
    (hx : x.Keeps config) : (t.stride x).Conforms config := by
  have hnames := h.names_stride x
  obtain ⟨rs', rest', ht⟩ := hs.traced
  cases x with
  | moved m =>
    have hconfig := config_stride ht (x := .moved m) rfl
    refine ⟨hconfig.trans h.configured, hnames, ?_⟩
    by_cases hm : ∃ i, m = .advance i
    · obtain ⟨i, rfl⟩ := hm
      exact h.offered_advance hs i
    · exact (step_rests ht.outlines fun i hi => hm ⟨i, hi⟩).offered h.offered
  | reopened config' contents clock =>
    revert hnames
    simp only [Traffic.stride]
    split
    · next s hopened =>
      exact fun hnames => ⟨(Contents.config_of_openStore hopened).trans hx, hnames,
        h.offered_reopened hs hopened⟩
    · exact fun _ => h

theorem conforms_start (config : Config) (logged : Bool) (clock : AttributeValue) :
    (start config logged clock).Conforms config :=
  ⟨rfl, fun _ ho => absurd ho List.not_mem_nil, (OperationLog.holds_ofBytes_nil _).offered nofun⟩

/-- After strides that open it with no other configuration a store conforms to its own. -/
theorem conforms_along {config : Config} {logged : Bool} {clock : AttributeValue}
    {strides : List Stride} (hstrides : ∀ x ∈ strides, x.Keeps config) :
    ((start config logged clock).along strides).Conforms config := by
  induction strides using List.reverseRecOn with
  | nil => exact conforms_start config logged clock
  | append_singleton strides x ih =>
    obtain ⟨rs, rest, left, hs⟩ := stands_start_along config logged clock strides
    rw [along_snoc]
    exact (ih fun y hy => hstrides y (List.mem_append_left _ hy)).stride hs
      (hstrides x (List.mem_append_right _ (List.mem_singleton_self x)))

end Traffic

/-! ## The attribute values can be opened -/

/-- What is left of a store that was made out of a settled one opens. -/
theorem AttributeStore.Made.exists_openStore {P : SegmentId → AttributeId → Prop}
    {s earlier : AttributeStore} (h : s.Made P earlier) (he : earlier.Settled)
    (hP : ∀ id x, P id x → id < Bytes.capacity 8) :
    ∃ store events, s.contents.openStore = .ok (store, events) := by
  obtain ⟨changes, hall, -, hlog⟩ := h
  unfold contents
  cases hk : s.keeper with
  | volatile index => exact ⟨_, _, rfl⟩
  | logged l =>
    obtain ⟨before, hbefore, hwhole⟩ : ∃ before, IndexChange.decodeAll earlier.logged = .ok before ∧
        earlier.logged.length = IndexChange.size * before.length := by
      unfold logged
      cases hearlier : earlier.keeper with
      | volatile index =>
        exact ⟨[], IndexChange.decodeAll_eq_nil_iff.mpr (show 0 < IndexChange.size by decide), rfl⟩
      | logged l =>
        obtain ⟨before, hlogs⟩ := he.logs l hearlier
        exact ⟨before, hlogs.decodes, hlogs.whole⟩
    have hmore : IndexChange.decodeAll (changes.flatMap IndexChange.encode ++ []) = .ok changes :=
      IndexChange.decodeAll_flatMap (fun c hc => (hall c hc).writable hP) (by decide)
    rw [List.append_nil] at hmore
    have hdecode := IndexChange.decodeAll_append hbefore hwhole hmore
    rw [← hlog l hk] at hdecode
    simp only [AttributeContents.openStore, IndexLog.openLog, hdecode]
    exact ⟨_, _, rfl⟩

/-- The attribute store of a store that was opened again is settled. -/
theorem Engine.Traced.settled_reopens {s s' : Engine} {rs : List Record} {rest : Bytes}
    (h : s.Traced rs rest) {config : Config} {left : AttributeContents} {clock : AttributeValue}
    (hs : (Contents.openStore ⟨s.log.bytes, left⟩ config clock).2.2 = .ok s') :
    s'.store.Settled := by
  obtain ⟨new, torn, -, hadmits, hframable, htorn, hbytes⟩ := h.framed
  simp only [Contents.openStore, hbytes] at hs
  split at hs
  · cases hs
  next store events hleft =>
  obtain ⟨r, store', repairs, n, reports, -, hr, hrec, hopening⟩ :=
    openStore_replayed hframable hadmits htorn (AttributeContents.refusing_of_openStore hleft)
      config clock
  have hsettled := (AttributeStore.settled_of_openStore hleft).reconcile hframable hr
  rw [hrec] at hsettled
  rw [hopening] at hs
  obtain rfl := Except.ok.inj hs
  exact hsettled

namespace Traffic

open Engine

variable {t : Traffic} {rs : List Record} {rest : Bytes} {left : AttributeStore}

/-- The attribute store was made out of one whose log can be opened, by values that can be
written. -/
def Settles (t : Traffic) (rs : List Record) : Prop :=
  ∃ earlier : AttributeStore, earlier.Settled ∧ t.engine.Tidy (Record.Storable rs) earlier

theorem settles_stride (h : t.Stands rs rest left) (ht : t.Settles rs) (x : Stride) :
    ∃ new rest' left', (t.stride x).Stands (rs ++ new) rest' left' ∧
      (t.stride x).Settles (rs ++ new) := by
  obtain ⟨earlier, hsettled, htidy⟩ := ht
  obtain ⟨rs', rest₀, htraced⟩ := h.traced
  obtain ⟨new', rest₁, htraced', -⟩ := traced_stride htraced x
  cases x with
  | moved m =>
    obtain ⟨new, rest', hfollows⟩ := h.sound.step m
    have htidy' := hfollows.tidy htidy
    exact ⟨new, rest', left, ⟨hfollows.sound, ⟨earlier, htidy'⟩, ⟨_, _, htraced'⟩⟩, earlier,
      hsettled, htidy'⟩
  | reopened config contents clock =>
    revert htraced'
    simp only [stride]
    split
    · next s hs =>
      intro htraced'
      obtain ⟨new, store, events, -, -, hsound, htidy'⟩ := h.sound.engine.reopens htraced hs
      exact ⟨new, [], store, ⟨⟨hsound, fun _ ho => absurd ho List.not_mem_nil⟩, ⟨_, htidy'⟩,
        ⟨_, _, htraced'⟩⟩, s.store, htraced.settled_reopens hs, htidy'⟩
    · intro _
      refine ⟨[], rest, left, ?_⟩
      rw [List.append_nil]
      exact ⟨h, earlier, hsettled, htidy⟩

/-- After any strides from a new store what is left of its attribute store can be opened. -/
theorem exists_openStore_along (config : Config) (logged : Bool) (clock : AttributeValue)
    (strides : List Stride) : ∃ store events,
      ((start config logged clock).along strides).engine.store.contents.openStore =
        .ok (store, events) := by
  obtain ⟨rs, rest, left, -, earlier, hsettled, htidy⟩ : ∃ rs rest left,
      ((start config logged clock).along strides).Stands rs rest left ∧
        ((start config logged clock).along strides).Settles rs := by
    induction strides using List.reverseRecOn with
    | nil =>
      have hempty : (AttributeStore.ofLog .empty).Settled := ⟨rfl, fun l hl => by
        obtain rfl := AttributeKeeper.logged.inj hl
        exact ⟨[], IndexLog.logs_empty⟩⟩
      exact ⟨[], [], _, stands_start config logged clock, _, hempty,
        tidy_start config logged clock _⟩
    | append_singleton strides x ih =>
      obtain ⟨rs, rest, left, hstands, hsettles⟩ := ih
      obtain ⟨new, rest', left', hstands', hsettles'⟩ := settles_stride hstands hsettles x
      rw [along_snoc]
      exact ⟨rs ++ new, rest', left', hstands', hsettles'⟩
  exact htidy.made.exists_openStore hsettled fun _ _ hx => hx.2.1

end Traffic

end Segments
