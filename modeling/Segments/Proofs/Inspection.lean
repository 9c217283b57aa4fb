import Segments.Proofs.Framing
import Segments.Proofs.Offered
import Segments.Proofs.Origins
import Segments.Proofs.Verification

/-!
# Inspection and reopening

Inspecting a store opens copies of its files under the standard configuration and asks for the
description of each segment, as a caller would. What is told then is what the store tells that is
opened under its own configuration, but a name is checked again when it is asked for: where the
configuration of the store lets longer names in than the standard one, the inspection fails at the
first name that is too long for the latter.
-/

namespace Segments

/-- Going through a list of keys ends at the first of them with an error. -/
theorem List.mapM_map_of_find? {α β γ ε : Type} {bs : List β} {key : β → α} {f : α → Except ε γ}
    (bad : α → Bool) (error : α → ε) (g : β → γ)
    (h : ∀ b ∈ bs, f (key b) = if bad (key b) then .error (error (key b)) else .ok (g b)) :
    (bs.map key).mapM f = match (bs.map key).find? bad with
      | some a => .error (error a)
      | none => .ok (bs.map g) := by
  induction bs with
  | nil => rfl
  | cons b bs ih =>
    have hrest := ih fun c hc => h c (List.mem_cons_of_mem b hc)
    rw [List.map_cons, List.mapM_cons, h b List.mem_cons_self, List.find?_cons]
    cases bad (key b) with
    | true => rfl
    | false =>
      simp only [Bool.false_eq_true, if_false, hrest]
      cases (bs.map key).find? bad <;> rfl

/-- What belongs to each element of a list makes a list. -/
theorem List.exists_map_eq {α β : Type} {l : List α} {f : β → α} {P : β → Prop}
    (h : ∀ a ∈ l, ∃ b, f b = a ∧ P b) : ∃ bs : List β, bs.map f = l ∧ ∀ b ∈ bs, P b := by
  induction l with
  | nil => exact ⟨[], rfl, nofun⟩
  | cons a l ih =>
    obtain ⟨b, rfl, hb⟩ := h a List.mem_cons_self
    obtain ⟨bs, rfl, hbs⟩ := ih fun c hc => h c (List.mem_cons_of_mem _ hc)
    exact ⟨b :: bs, rfl, List.forall_mem_cons.mpr ⟨hb, hbs⟩⟩

namespace SegmentName

/-- Whether a name is too long for a bound. -/
def exceeds (max : Nat) (name : String) : Bool := decide (max < name.utf8ByteSize)

/-- A valid name can only be too long for another bound. -/
theorem validate_of_validate {name : String} {max : Nat} (h : validate name max = .ok ())
    (max' : Nat) : validate name max' =
      if exceeds max' name then .error (.invalidSegmentName name "name is too long")
      else .ok () := by
  unfold validate at h ⊢
  split at h
  · cases h
  next hnonempty =>
  split at h
  · cases h
  split at h
  · cases h
  next hcontrol =>
  split at h
  · cases h
  next hreserved =>
  rw [if_neg hnonempty, if_neg hcontrol, if_neg hreserved]
  simp only [exceeds, decide_eq_true_eq]

/-- A valid name is not too long for a larger bound. -/
theorem exceeds_of_validate {name : String} {max max' : Nat} (h : validate name max = .ok ())
    (hmax : max ≤ max') : exceeds max' name = false := by
  rw [validate_of_validate h] at h
  split at h
  · cases h
  next hfits =>
  simp only [exceeds, decide_eq_true_eq, Nat.not_lt] at hfits
  exact decide_eq_false (Nat.not_lt.mpr (Nat.le_trans hfits hmax))

end SegmentName

namespace Engine

variable {s : Engine} {name : String}

/-- The names that are listed are those that stand for a segment. -/
theorem mem_segmentNames : name ∈ s.segmentNames ↔ ∃ id, s.names.get? name = some id := by
  rw [segmentNames, List.mem_mergeSort, Table.mem_keys_iff, Table.contains_iff_get?]

/-- They are listed in their order, each of them once. -/
theorem pairwise_segmentNames (s : Engine) : s.segmentNames.Pairwise (· < ·) := by
  have htrans : ∀ a b c : String, decide (a ≤ b) = true → decide (b ≤ c) = true →
      decide (a ≤ c) = true := fun a b c hab hbc =>
    decide_eq_true (String.le_trans (of_decide_eq_true hab) (of_decide_eq_true hbc))
  have htotal : ∀ a b : String, (decide (a ≤ b) || decide (b ≤ a)) = true := fun a b => by
    simp [String.le_total a b]
  have hsorted := List.pairwise_mergeSort htrans htotal s.names.keys
  have hnodup : s.segmentNames.Nodup :=
    (List.mergeSort_perm s.names.keys _).nodup_iff.mpr s.names.nodup
  refine (hsorted.and hnodup).imp fun ⟨hle, hne⟩ => String.not_le.mp fun hge => ?_
  exact hne (String.le_antisymm (of_decide_eq_true hle) hge)

/-- What callers are told of a segment depends only on the journal that was replayed. -/
theorem properties_ofReplayed (config config' : Config) (journal journal' : Bytes)
    (store store' : AttributeStore) (clock clock' : AttributeValue) (r : Replayed) (name : String) :
    (ofReplayed config journal store clock r).properties name =
      (ofReplayed config' journal' store' clock' r).properties name := rfl

/-- The descriptions of all segments, in the order of their names. -/
structure Lists (s : Engine) (described : List Properties) : Prop where
  /-- There is one for each name. -/
  names : described.map Properties.name = s.segmentNames
  /-- It is what callers are told. -/
  properties : ∀ p ∈ described, s.properties p.name = .ok p

end Engine

/-- Who asks for a description without waiting gets what there is, if the name is valid. -/
theorem Scheduler.Idle.call_info {s : Scheduler} (h : s.Idle) (name : String) :
    (s.call (.info name false) patience).2 =
      match SegmentName.validate name s.engine.config.maxNameLength with
      | .error e => .error e
      | .ok () => .ok (some ((s.engine.properties name).map .properties)) := by
  cases hname : SegmentName.validate name s.engine.config.maxNameLength with
  | error e =>
    have hrejected : s.engine.accept (.info name false) patience = .error e := by
      simp only [Engine.accept, Request.validate, Request.names, Request.checkNames, hname, bind,
        Except.bind]
    simp only [Scheduler.call, submit, hrejected]
  | ok u =>
    have hvalid : (Request.info name false).validate s.engine.config patience = .ok () :=
      Request.validate_of_name rfl hname rfl
    obtain ⟨s₁, hcall, -⟩ :=
      h.call (Engine.accept_of_validate hvalid) rfl (Engine.ends_of_finished rfl rfl) (by decide)
    rw [hcall]
    rfl

/-- A summary has what callers are told, or fails at the first name that is too long. -/
theorem Inspection.summarize_eq {s : Scheduler} (h : s.Idle) {described : List Properties}
    (hlists : s.engine.Lists described) {max : Nat}
    (hvalid : ∀ name ∈ s.engine.segmentNames, SegmentName.validate name max = .ok ())
    (shown : Bool) : summarize s shown =
      match s.engine.segmentNames.find? (SegmentName.exceeds s.engine.config.maxNameLength) with
      | some name => .error (.argument (.invalidSegmentName name "name is too long"))
      | none => .ok (described.map fun p => ⟨p, shown⟩) := by
  unfold summarize
  rw [← hlists.names] at hvalid ⊢
  refine (List.mapM_map_of_find? (SegmentName.exceeds s.engine.config.maxNameLength)
    (fun name => ConsoleError.argument (.invalidSegmentName name "name is too long"))
    (fun p => SegmentSummary.mk p shown) fun p hp => ?_).trans ?_
  · rw [h.call_info, SegmentName.validate_of_validate (hvalid _ (List.mem_map_of_mem hp)),
      hlists.properties p hp]
    cases SegmentName.exceeds s.engine.config.maxNameLength p.name <;> rfl
  · cases (described.map Properties.name).find?
      (SegmentName.exceeds s.engine.config.maxNameLength) <;> rfl

namespace Snapshot

variable {s : Snapshot} {config : Config} {clock : AttributeValue} {e : Engine} {l : IndexLog}
  {events : List Event}

/-- A store opens over copies under any configuration, and tells its callers the same of its
segments. -/
theorem exists_openStore (hindex : IndexLog.openLog s.attributes = .ok (l, events))
    (hopens : (s.contents.openStore config clock).2.2 = .ok e) :
    ∃ copy, s.openStore = .ok (.ofEngine copy) ∧ copy.config = Snapshot.config ∧
      copy.segmentNames = e.segmentNames ∧ ∀ name, copy.properties name = e.properties name := by
  obtain ⟨-, hstop, r, hsteps⟩ := (Contents.openStore_eq_ok_iff config clock).mp ⟨e, hopens⟩
  obtain ⟨store, reports, n, hown⟩ := Contents.exists_openStore_eq hindex hstop hsteps config clock
  obtain ⟨store', reports', n', hcopy⟩ :=
    Contents.exists_openStore_eq hindex hstop hsteps Snapshot.config 0
  rw [Snapshot.contents, hown] at hopens
  obtain rfl := Except.ok.inj hopens
  refine ⟨.ofReplayed Snapshot.config (s.journal.take (Scan.ofJournal s.journal).position) store' 0
    r, ?_, rfl, rfl, fun name => Engine.properties_ofReplayed _ _ _ _ _ _ _ _ r name⟩
  rw [openStore, Snapshot.contents, hcopy]
  rfl

/-- A store opens over copies, and its names are within some bound. Then an inspection of the copies
shows what that store tells its callers, unless one of the names is too long for the standard
configuration; it fails at the first that is. -/
theorem inspect_eq (hindex : IndexLog.openLog s.attributes = .ok (l, events))
    (hopens : (s.contents.openStore config clock).2.2 = .ok e) {described : List Properties}
    (hlists : e.Lists described) {max : Nat}
    (hvalid : ∀ name ∈ e.segmentNames, SegmentName.validate name max = .ok ()) (shown : Bool)
    (format : OutputFormat) : s.inspect shown format =
      match e.segmentNames.find? (SegmentName.exceeds Config.standard.maxNameLength) with
      | some name => .failed (.argument (.invalidSegmentName name "name is too long"))
      | none => .success (Inspection.render ⟨s.path, s.journal.length, s.attributes.length,
          s.scan.records.length, l.index.size, described.map fun p => ⟨p, shown⟩⟩ format) := by
  obtain ⟨copy, hcopy, hconfig, hsame, hproperties⟩ := exists_openStore hindex hopens
  have hcopied : copy.Lists described :=
    ⟨hlists.names.trans hsame.symm, fun p hp => (hproperties _).trans (hlists.properties p hp)⟩
  have hsummary := Inspection.summarize_eq (Scheduler.idle_ofEngine copy) hcopied
    (fun name hname => hvalid name (hsame ▸ hname)) shown
  have hengine : (Scheduler.ofEngine copy).engine = copy := rfl
  rw [hengine, hconfig, hsame, Snapshot.config] at hsummary
  simp only [inspect, Inspection.ofSnapshot, openIndex, hindex, hcopy, Except.mapError, bind,
    Except.bind, Except.map, hsummary]
  cases e.segmentNames.find? (SegmentName.exceeds Config.standard.maxNameLength) <;> rfl

end Snapshot

namespace Engine

variable {s : Engine} {rs : List Record} {left : AttributeStore}

/-- An opened store has a description of each of its segments. -/
theorem Opened.exists_lists (h : s.Opened rs left) (hadmits : Account.start.AdmitsAll rs) :
    ∃ described, s.Lists described := by
  obtain ⟨store, hagrees⟩ := h.agrees
  have hw := Account.wellFormed_after hadmits
  have hdescribed : ∀ name ∈ s.segmentNames,
      ∃ p : Properties, p.name = name ∧ s.properties p.name = .ok p := by
    intro name hname
    obtain ⟨id, hid⟩ := mem_segmentNames.mp hname
    have hnamed : (Account.after rs).names name = some id := (hagrees.names name).symm.trans hid
    obtain ⟨e, g, hresolve, hg, -, -, hd, -⟩ := hagrees.resolve_of_name hw hnamed
    obtain ⟨g', hg', hname'⟩ := hw.name name id hnamed
    obtain rfl := Option.some.inj (hg.symm.trans hg')
    have hstate : e.state ≠ .creating := by
      rw [show e.state = g.state from hd.state]
      rcases (hw.segment id g hg).state with hs | hs | hs <;> rw [hs] <;> decide
    have hsame : s.resolve name = .ok e := hresolve
    refine ⟨e.metadata.properties, hd.name.trans hname', ?_⟩
    rw [show e.metadata.properties.name = name from hd.name.trans hname']
    simp only [properties, requireOpen_of_open h.isOpen, hsame, if_neg hstate]
  obtain ⟨described, hnames, hproperties⟩ := List.exists_map_eq hdescribed
  exact ⟨described, hnames, hproperties⟩

/-- The names of an opened store are those that its records give. -/
theorem Opened.exists_create (h : s.Opened rs left) (hadmits : Account.start.AdmitsAll rs)
    {name : String} (hname : name ∈ s.segmentNames) : ∃ id values, .create id name values ∈ rs := by
  obtain ⟨store, hagrees⟩ := h.agrees
  obtain ⟨id, hid⟩ := mem_segmentNames.mp hname
  obtain ⟨g, hg, rfl⟩ := (Account.wellFormed_after hadmits).name name id
    ((hagrees.names name).symm.trans hid)
  obtain ⟨before, values, later, rfl⟩ := Account.exists_created hadmits hg
  exact ⟨id, values, List.mem_append_right _ List.mem_cons_self⟩

end Engine

namespace Traffic

/-- Whatever has happened to a store that was only opened with one configuration, it can be opened
with it again. Then all its names are valid under this configuration, and it has a description of
each segment. -/
theorem exists_reopened {config : Config} {logged : Bool} {clock : AttributeValue}
    {strides : List Stride} (hkeeps : ∀ x ∈ strides, x.Keeps config) {attributes : Bytes}
    (hleft : ((start config logged clock).along strides).engine.store.contents = .log attributes)
    (clock' : AttributeValue) : ∃ s l events described,
      (Contents.openStore ⟨((start config logged clock).along strides).engine.log.bytes,
        .log attributes⟩ config clock').2.2 = .ok s ∧
      IndexLog.openLog attributes = .ok (l, events) ∧ s.Lists described ∧
      ∀ name ∈ s.segmentNames, SegmentName.validate name config.maxNameLength = .ok () := by
  obtain ⟨rs, rest, left, hstands⟩ := stands_start_along config logged clock strides
  obtain ⟨rs', rest', htraced⟩ := hstands.traced
  obtain ⟨new, torn, -, hadmits, hframable, htorn, hbytes⟩ := htraced.framed
  obtain ⟨store, events, hstore⟩ := exists_openStore_along config logged clock strides
  rw [hleft] at hstore
  obtain ⟨l, hindex⟩ : ∃ l, IndexLog.openLog attributes = .ok (l, events) := by
    simp only [AttributeContents.openStore] at hstore
    split at hstore
    · cases hstore
    next l events' hindex =>
    obtain ⟨-, rfl⟩ := Prod.mk.inj (Except.ok.inj hstore)
    exact ⟨l, hindex⟩
  obtain ⟨s, hs, hopened⟩ := Engine.exists_opened hframable hadmits htorn
    (AttributeContents.refusing_of_openStore hstore) config clock'
  obtain ⟨described, hlists⟩ := hopened.exists_lists hadmits
  refine ⟨s, l, events, described, ?_, hindex, hlists, fun name hname => ?_⟩
  · simp only [Contents.openStore, hstore, hbytes, hs]
  · obtain ⟨id, values, hcreate⟩ := hopened.exists_create hadmits hname
    have hconforms : ((start config logged clock).along strides).Conforms config :=
      conforms_along hkeeps
    have hoffered := hconforms.offered.of_mem_records
    rw [OperationLog.records_of_bytes hframable hbytes htorn] at hoffered
    exact hoffered _ hcreate

end Traffic

/-- The command inspects copies of the two files. -/
theorem FileTree.HasStore.inspect {tree : FileTree} {path : String} {place : FilePlace}
    {journal attributes : Bytes} (h : tree.HasStore path place journal attributes) (shown : Bool)
    (format : OutputFormat) : (Command.run tree (some path) (.inspect shown format)).2 =
      Snapshot.inspect shown format ⟨path, journal, attributes⟩ := by
  obtain ⟨tree', hloaded⟩ := h.exists_load
  simp only [Command.run, Command.onStore, Snapshot.withSnapshot, hloaded]

/-- A store was only opened with one configuration, and its directory is inspected. It can be opened
with its configuration again. The names of its segments are then listed in their order, each of them
once, and the inspection shows in this order what a caller is told of each segment, unless a name is
too long for the standard configuration; it fails at the first that is. No name is too long if the
configuration of the store lets no longer names in than the standard one. -/
theorem Command.inspect_along {tree : FileTree} {path : String} {place : FilePlace}
    {config : Config} {clock : AttributeValue} {strides : List Stride} {attributes : Bytes}
    (hkeeps : ∀ x ∈ strides, x.Keeps config)
    (hleft : ((Traffic.start config true clock).along strides).engine.store.contents =
      .log attributes)
    (hstore : tree.HasStore path place
      ((Traffic.start config true clock).along strides).engine.log.bytes attributes)
    (clock' : AttributeValue) (shown : Bool) (format : OutputFormat) :
    let log := ((Traffic.start config true clock).along strides).engine.log
    ∃ (s : Engine) (l : IndexLog) (events : List Event) (described : List Properties),
      (Contents.openStore ⟨log.bytes, .log attributes⟩ config clock').2.2 = .ok s ∧
      s.segmentNames.Pairwise (· < ·) ∧
      (∀ name, name ∈ s.segmentNames ↔ ∃ id, s.names.get? name = some id) ∧
      described.map Properties.name = s.segmentNames ∧
      (∀ p ∈ described, ((Scheduler.ofEngine s).call (.info p.name false) Scheduler.patience).2 =
        .ok (some (.ok (.properties p)))) ∧
      IndexLog.openLog attributes = .ok (l, events) ∧
      (run tree (some path) (.inspect shown format)).2 =
        (match s.segmentNames.find? (SegmentName.exceeds Config.standard.maxNameLength) with
        | some name => .failed (.argument (.invalidSegmentName name "name is too long"))
        | none => .success (Inspection.render ⟨path, log.bytes.length, attributes.length,
            log.records.length, l.index.size, described.map fun p => ⟨p, shown⟩⟩ format)) ∧
      (config.maxNameLength ≤ Config.standard.maxNameLength →
        s.segmentNames.find? (SegmentName.exceeds Config.standard.maxNameLength) = none) := by
  intro log
  obtain ⟨s, l, events, described, hs, hindex, hlists, hvalid⟩ :=
    Traffic.exists_reopened hkeeps hleft clock'
  refine ⟨s, l, events, described, hs, s.pairwise_segmentNames, fun name => Engine.mem_segmentNames,
    hlists.names, fun p hp => ?_, hindex, ?_, fun hmax => ?_⟩
  · have hname := hvalid p.name (hlists.names ▸ List.mem_map_of_mem hp)
    have hconfig : s.config = config := Contents.config_of_openStore hs
    have hengine : (Scheduler.ofEngine s).engine = s := rfl
    rw [(Scheduler.idle_ofEngine s).call_info, hengine, hconfig, hname, hlists.properties p hp]
    rfl
  · have hrecords : (Snapshot.scan ⟨path, log.bytes, attributes⟩).records.length =
        log.records.length := (List.length_map _).symm
    rw [hstore.inspect, ← hrecords]
    exact Snapshot.inspect_eq (s := ⟨path, log.bytes, attributes⟩) hindex hs hlists hvalid _ _
  · refine List.find?_eq_none.mpr fun name hname => ?_
    have hfits := SegmentName.exceeds_of_validate (hvalid name hname) hmax
    rw [hfits]
    exact Bool.false_ne_true

namespace Traffic

open Engine

variable {config : Config} {name : String}

/-- A store creates a segment and is shut down. -/
def creation (name : String) : List Stride :=
  [.submit (.create name []) 1, .advance 0, .shutdown].map fun m => .moved m

/-- The run that creates a segment keeps its configuration. -/
theorem keeps_creation (config : Config) (name : String) :
    ∀ x ∈ creation name, x.Keeps config := by
  intro x hx
  obtain ⟨m, -, rfl⟩ := List.mem_map.mp hx
  trivial

/-- A new store creates a segment: its record is all there is, and no value waits for the attribute
store. -/
theorem execute_create_new (hframable : (Record.create 1 name [(.creationTime, 0)]).Framable)
    (pending : Pending) :
    let s := ({ Engine.new config [] (.ofLog .empty) 0 with pending }.execute (.create name [])).1
    s.contents = ⟨Frame.whole (.create 1 name [(.creationTime, 0)]), .log []⟩ ∧
      (∀ id e, s.entries.get? id = some e → e.metadata.attributes.unstored.isEmpty = true) ∧
      s.log.device.switch.failFlush = false ∧ s.store.refusing = false := by
  intro s
  let before : Engine := { Engine.new config [] (.ofLog .empty) 0 with pending }
  have hsafe : before.log.Safe := ⟨rfl, rfl, rfl⟩
  obtain ⟨log, happend, hsafe', hbytes⟩ := hsafe.append_whole hframable
  have hs : s = (({ before with log } : Engine).enact name
      (.create 1 name [(.creationTime, 0)])).1 := by
    obtain ⟨answer, hpropose⟩ : ∃ answer, before.propose (.create name []) =
      .commit (.create 1 name [(.creationTime, 0)]) answer := ⟨_, rfl⟩
    have hlog : (before.touchConsulted (.create name [])).log = before.log := rfl
    change (before.execute (.create name [])).1 = _
    simp only [execute_eq, hpropose, hlog, happend]
    rfl
  rw [hs]
  refine ⟨congrArg (Contents.mk · (.log [])) hbytes, fun id e he => ?_, hsafe'.flushes, rfl⟩
  change (Table.empty.insert 1 _).get? id = some e at he
  rw [Table.get?_insert] at he
  split at he
  · obtain rfl := Option.some.inj he
    rfl
  · cases he

/-- What a store leaves that has created a segment. -/
theorem contents_creation (hname : SegmentName.validate name config.maxNameLength = .ok ())
    (hframable : (Record.create 1 name [(.creationTime, 0)]).Framable) :
    ((start config true 0).along (creation name)).engine.contents =
      ⟨Frame.whole (.create 1 name [(.creationTime, 0)]), .log []⟩ := by
  have hvalid : (Request.create name []).validate config 1 = .ok () :=
    Request.validate_eq_ok_iff.mpr ⟨Request.checkNames_singleton.mpr hname, by decide, rfl⟩
  let s : Engine := { Engine.new config [] (.ofLog .empty) 0 with
    pending := (Pending.empty.registerAll [name]).1 }
  let o : Operation := ⟨.create name [], Pending.empty.barrier,
    (Pending.empty.registerAll [name]).2, .accepted⟩
  have hsubmitted : (start config true 0).step (.submit (.create name []) 1) = ⟨s, [o]⟩ := by
    simp only [step, start]
    rw [accept_of_validate hvalid]
    rfl
  let ended : Operation := { o with phase := .finished (s.execute (.create name [])).2.2 }
  have halong : ((start config true 0).along (creation name)).engine =
      ((s.execute (.create name [])).1.settle ended).shutdown.1 := by
    change (((start config true 0).step (.submit (.create name []) 1)).step
      (.advance 0)).engine.shutdown.1 = _
    rw [hsubmitted]
    rfl
  obtain ⟨hcontents, hunstored, hflush, htaking⟩ := execute_create_new hframable s.pending
  rw [halong, (contents_shutdown (s := (s.execute (.create name [])).1.settle ended) hunstored
    hflush htaking).1]
  exact hcontents

/-- A store that was opened over one creation has that segment alone. -/
theorem segmentNames_of_creation
    (hframable : (Record.create 1 name [(.creationTime, 0)]).Framable)
    {journal : Bytes} (hjournal : journal = Frame.whole (.create 1 name [(.creationTime, 0)]))
    {attributes : AttributeContents} {clock : AttributeValue} {s : Engine}
    (hs : (Contents.openStore ⟨journal, attributes⟩ config clock).2.2 = .ok s) :
    s.segmentNames = [name] := by
  have hscan := Scan.ofJournal_wholes (List.forall_mem_singleton.mpr hframable) Frame.torn_nil
  rw [List.append_nil, Frame.wholes_singleton, ← hjournal] at hscan
  simp only [Contents.openStore] at hs
  split at hs
  · cases hs
  · obtain ⟨r, hr, hnames, -⟩ := exists_steps_of_openStore hs
    rw [hscan] at hr
    obtain rfl := Except.ok.inj (show Except.ok _ = Except.ok r from hr)
    rw [segmentNames, hnames]
    exact List.mergeSort_singleton name

end Traffic

/-- The directory of a store with a single segment is inspected. -/
theorem Command.inspect_along_of_creation :
    let t := (Traffic.start .standard true 0).along (Traffic.creation "a")
    let tree := FileTree.holding t.engine.log.bytes []
    (∀ x ∈ Traffic.creation "a", x.Keeps .standard) ∧ t.engine.store.contents = .log [] ∧
      tree.HasStore "s" ["s"] t.engine.log.bytes [] ∧
      ∃ (s : Engine) (p : Properties),
        (Contents.openStore ⟨t.engine.log.bytes, .log []⟩ .standard 1).2.2 = .ok s ∧
        s.segmentNames = ["a"] ∧ p.name = "a" ∧
        ((Scheduler.ofEngine s).call (.info "a" false) Scheduler.patience).2 =
          .ok (some (.ok (.properties p))) ∧
        (run tree (some "s") (.inspect true .text)).2 = .success (Inspection.render
          ⟨"s", t.engine.log.bytes.length, 0, 1, 0, [⟨p, true⟩]⟩ .text) := by
  intro t tree
  have hframable : (Record.create 1 "a" [(.creationTime, 0)]).Framable := ⟨by decide, by decide⟩
  have hname : SegmentName.validate "a" Config.standard.maxNameLength = .ok () := by decide
  have hleft : t.engine.contents = ⟨Frame.whole (.create 1 "a" [(.creationTime, 0)]), .log []⟩ :=
    Traffic.contents_creation hname hframable
  have hjournal : t.engine.log.bytes = Frame.whole (.create 1 "a" [(.creationTime, 0)]) :=
    congrArg Contents.journal hleft
  have hattributes : t.engine.store.contents = .log [] := congrArg Contents.attributes hleft
  have hrecords : t.engine.log.records = [.create 1 "a" [(.creationTime, 0)]] := by
    refine OperationLog.records_of_bytes (List.forall_mem_singleton.mpr hframable) ?_ Frame.torn_nil
    rw [hjournal, Frame.wholes_singleton, List.append_nil]
  have hstore : tree.HasStore "s" ["s"] t.engine.log.bytes [] := FileTree.hasStore_holding _ _
  have hkeeps := Traffic.keeps_creation .standard "a"
  obtain ⟨s, l, events, described, hs, -, -, hnames, hinfo, hindex, hrun, hfits⟩ :=
    inspect_along hkeeps hattributes hstore 1 true .text
  have hlisted := Traffic.segmentNames_of_creation hframable hjournal hs
  obtain ⟨p, rfl, hp⟩ := List.map_eq_singleton_iff.mp (hnames.trans hlisted)
  obtain ⟨events', hempty, -⟩ := IndexLog.logs_empty.openLog
  obtain ⟨rfl, -⟩ := Prod.mk.inj (Except.ok.inj (hempty.symm.trans hindex))
  have hanswer := hinfo p List.mem_cons_self
  rw [hp] at hanswer
  refine ⟨hkeeps, hattributes, hstore, s, p, hs, hlisted, hp, hanswer, ?_⟩
  have hone : ((Traffic.start .standard true 0).along (Traffic.creation "a")).engine.log.records =
    [.create 1 "a" [(.creationTime, 0)]] := hrecords
  rw [hfits (Nat.le_refl _), hone] at hrun
  exact hrun

/-- Where a store lets a name in that is too long for the standard configuration, it can be opened
again, but its directory cannot be inspected. -/
theorem Command.inspect_creation {config : Config} {name : String}
    (hname : SegmentName.validate name config.maxNameLength = .ok ())
    (hlong : SegmentName.exceeds Config.standard.maxNameLength name = true)
    (hframable : (Record.create 1 name [(.creationTime, 0)]).Framable) :
    let t := (Traffic.start config true 0).along (Traffic.creation name)
    let tree := FileTree.holding t.engine.log.bytes []
    t.engine.store.contents = .log [] ∧ tree.HasStore "s" ["s"] t.engine.log.bytes [] ∧
      (∃ s, (Contents.openStore ⟨t.engine.log.bytes, .log []⟩ config 1).2.2 = .ok s ∧
        s.segmentNames = [name]) ∧
      (run tree (some "s") (.inspect false .text)).2 =
        .failed (.argument (.invalidSegmentName name "name is too long")) := by
  intro t tree
  have hleft : t.engine.contents = ⟨Frame.whole (.create 1 name [(.creationTime, 0)]), .log []⟩ :=
    Traffic.contents_creation hname hframable
  have hjournal : t.engine.log.bytes = Frame.whole (.create 1 name [(.creationTime, 0)]) :=
    congrArg Contents.journal hleft
  have hattributes : t.engine.store.contents = .log [] := congrArg Contents.attributes hleft
  have hstore : tree.HasStore "s" ["s"] t.engine.log.bytes [] := FileTree.hasStore_holding _ _
  obtain ⟨s, l, events, described, hs, hindex, hlists, hvalid⟩ :=
    Traffic.exists_reopened (Traffic.keeps_creation config name) hattributes 1
  have hlisted := Traffic.segmentNames_of_creation hframable hjournal hs
  refine ⟨hattributes, hstore, ⟨s, hs, hlisted⟩, ?_⟩
  rw [hstore.inspect, Snapshot.inspect_eq (s := ⟨"s", t.engine.log.bytes, []⟩) hindex hs hlists
    hvalid, hlisted, List.find?_cons, hlong]

/-- A name that is one byte longer than the standard configuration permits. -/
theorem Command.inspect_of_longName :
    let config := { Config.standard with maxNameLength := 513 }
    let name := String.ofList (List.replicate 513 'a')
    let t := (Traffic.start config true 0).along (Traffic.creation name)
    let tree := FileTree.holding t.engine.log.bytes []
    t.engine.store.contents = .log [] ∧ tree.HasStore "s" ["s"] t.engine.log.bytes [] ∧
      (∃ s, (Contents.openStore ⟨t.engine.log.bytes, .log []⟩ config 1).2.2 = .ok s ∧
        s.segmentNames = [name]) ∧
      (run tree (some "s") (.inspect false .text)).2 =
        .failed (.argument (.invalidSegmentName name "name is too long")) := by
  have hsize : (String.ofList (List.replicate 513 'a')).utf8ByteSize = 513 := by decide +kernel
  have hempty : (String.ofList (List.replicate 513 'a')).isEmpty = false := by decide +kernel
  have hcontrol : SegmentName.isControl 'a' = false := by decide
  have hreserved : SegmentName.isReserved 'a' = false := by decide
  refine inspect_creation ?_ (decide_eq_true ?_) (Record.framable_create (by decide) ?_)
  · simp only [SegmentName.validate, hsize, hempty, String.toList_ofList, List.any_replicate,
      hcontrol, hreserved]
    rfl
  · rw [hsize]
    decide
  · rw [hsize]
    decide

end Segments
