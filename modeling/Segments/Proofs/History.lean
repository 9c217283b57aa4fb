import Segments.Proofs.Found
import Segments.Proofs.Passage

/-!
# Histories of a store

A history is all that happens to a store over its life, one `Stride` after another: the moves of an
open store, and reopenings, which may come at any moment and find whatever is left of the attribute
store. The records of the journal say what the store has at every moment of its history, but for
attribute values. A record that was not taken may be whole in the journal all the same; it is then
the next one, and a reopened store has it. The attribute values are those of the records, and of all
others those that the last opening found.
-/

namespace Segments

/-- One thing that happens to a store. -/
inductive Stride where
  /-- The open store moves. -/
  | moved (move : Move)
  /-- A store is opened over the journal and what is left of the attribute store. -/
  | reopened (config : Config) (left : AttributeContents) (clock : AttributeValue)

/-- Whether the store stays open. -/
def Stride.staysOpen : Stride → Bool
  | moved _ => true
  | reopened .. => false

namespace Traffic

/-- The store after something has happened; one that cannot be opened is left as it was. -/
def stride (t : Traffic) : Stride → Traffic
  | .moved m => t.step m
  | .reopened config left clock =>
    match (Contents.openStore ⟨t.engine.log.bytes, left⟩ config clock).2.2 with
    | .ok s => ⟨s, []⟩
    | .error _ => t

/-- The store after a history. -/
def along (t : Traffic) (strides : List Stride) : Traffic := strides.foldl stride t

theorem along_append (t : Traffic) (strides more : List Stride) :
    t.along (strides ++ more) = (t.along strides).along more := List.foldl_append

theorem along_snoc (t : Traffic) (strides : List Stride) (x : Stride) :
    t.along (strides ++ [x]) = (t.along strides).stride x := t.along_append strides [x]

/-- A run is a history in which the store stays open. -/
theorem along_moved (t : Traffic) (moves : List Move) :
    t.along (moves.map .moved) = t.run moves := by
  rw [along, List.foldl_map]
  rfl

end Traffic

namespace Engine

/-- The records of its journal say what an engine has, attributes put aside. -/
structure Traced (s : Engine) (rs : List Record) (rest : Bytes) : Prop where
  /-- The records came one after another. -/
  admitted : Account.start.AdmitsAll rs
  /-- Their account outlines the engine. -/
  outlines : s.Outlines (.after rs)
  /-- The journal has their frames. -/
  holds : s.log.Holds rs rest
  /-- What follows them is of a record that can come next. -/
  pending : rest ≠ [] → ∃ r, (Account.after rs).Admits r ∧ r.Framable ∧ rest <+: Frame.whole r
  /-- Every entry is in order. -/
  inOrder : s.InOrder

variable {s s' : Engine} {rs new : List Record} {rest : Bytes}

namespace Traced

theorem wellFormed (h : s.Traced rs rest) : (Account.after rs).WellFormed :=
  Account.wellFormed_after h.admitted

theorem rests (h : s.Traced rs rest) (hr : s.Rests s') : s'.Traced rs rest where
  admitted := h.admitted
  outlines := h.outlines.resembles hr.resembles
  holds := hr.holds rs rest h.holds
  pending := h.pending
  inOrder := hr.inOrder h.inOrder

/-- The journal fails to take a record that can come next. -/
theorem fails (h : s.Traced rs rest) {record : Record} {e : SegmentError}
    (hr : (Account.after rs).Admits record) (hfailed : (s.log.append record).2 = .error e) :
    ∃ rest', ({ s with log := (s.log.append record).1 } : Engine).Traced rs rest' := by
  rcases h.holds.append record with ⟨n, hn, -⟩ | ⟨e', -, rest', hcut, hholds, -⟩
  · rw [hfailed] at hn
    cases hn
  refine ⟨rest', h.admitted, h.outlines.resembles (.of_entries rfl rfl rfl), hholds,
    fun hne => ?_, h.inOrder⟩
  rcases hcut with rfl | ⟨hframable, hprefix⟩
  · exact h.pending hne
  · exact ⟨record, hr, hframable, hprefix⟩

/-- The journal takes a record that can come next, and it is applied. -/
theorem commits (h : s.Traced rs rest) {callerName : String} {record : Record} {n : Nat}
    (hr : (Account.after rs).Admits record)
    (hdelete : ∀ id, record = .delete id → (Account.after rs).names callerName = some id)
    (htaken : (s.log.append record).2 = .ok n) :
    (({ s with log := (s.log.append record).1 } : Engine).enact callerName record).1.Traced
      (rs ++ [record]) [] := by
  have hholds : (s.log.append record).1.Holds (rs ++ [record]) [] := by
    rcases h.holds.append record with ⟨m, -, hholds, -⟩ | ⟨e, he, -⟩
    · exact hholds
    · rw [htaken] at he
      cases he
  let taken : Engine := { s with log := (s.log.append record).1 }
  have hw := h.wellFormed
  have houtlines : taken.Outlines (.after rs) := h.outlines.resembles (.of_entries rfl rfl rfl)
  have henacted := houtlines.enact hw hr hdelete
  rw [← Account.after_append_singleton] at henacted
  exact ⟨h.admitted.snoc hr, henacted, by rwa [enact_log], fun hne => absurd rfl hne,
    InOrder.enact (s := taken) h.inOrder callerName record⟩

/-- Whatever passes adds its records. -/
theorem passes (h : s.Traced rs rest) (hp : s.Passes new s') :
    ∃ rest', s'.Traced (rs ++ new) rest' := by
  cases hp with
  | rests rests => exact ⟨rest, by rw [List.append_nil]; exact h.rests rests⟩
  | fails before proposes touched failed after =>
    have hbefore := h.rests before
    obtain ⟨rest', hfailed⟩ := (hbefore.rests touched).fails
      (hbefore.outlines.admits h.wellFormed proposes) failed
    exact ⟨rest', by rw [List.append_nil]; exact hfailed.rests after⟩
  | @commits s₁ s₂ _ action record n before proposes touched taken after =>
    have hbefore := h.rests before
    have hdelete : ∀ id, record = .delete id →
        (Account.after rs).names action.callerName = some id := by
      rintro id rfl
      rw [← hbefore.outlines.names]
      exact names_of_proposes_delete proposes
    exact ⟨[], ((hbefore.rests touched).commits (hbefore.outlines.admits h.wellFormed proposes)
      hdelete taken).rests after⟩

end Traced

/-- A store that is opened over the frames of records that can come one after another, and torn
bytes, has what the records say, whatever is in the attribute store. -/
theorem traced_openStore (hframable : ∀ r ∈ rs, r.Framable)
    (hadmits : Account.start.AdmitsAll rs) (hrest : Frame.Torn rest) {store : AttributeStore}
    (htaking : store.refusing = false) {config : Config} {clock : AttributeValue}
    (hs : (Engine.openStore config (Frame.wholes rs ++ rest) store clock).result = .ok s) :
    s.Traced rs [] := by
  obtain ⟨r, store', repairs, n, reports, -, hr, -, hopening⟩ :=
    openStore_replayed hframable hadmits hrest htaking config clock
  rw [hopening] at hs
  obtain rfl := Except.ok.inj hs
  have hentries := get?_ofReplayed config (Frame.wholes rs) store' clock r
  -- over an empty attribute store the same entries would agree with the account in full
  obtain ⟨store₀, -, -, -, hagrees, -⟩ := hr.reopened
    (show AttributeStore.empty.refusing = false from rfl) (fun id x v hv => by cases hv) config
    (Frame.wholes rs) clock
  refine ⟨hadmits, hagrees.outlines.resembles (.of_entries rfl rfl rfl),
    OperationLog.holds_of_wholes hframable rfl, fun hne => absurd rfl hne, fun id e he => ?_⟩
  rw [hentries] at he
  obtain ⟨e', he', rfl⟩ := Option.map_eq_some_iff.mp he
  refine ⟨rfl, ?_⟩
  change e'.metadata.attributes.cache.extended.size ≤ _
  rw [(hr.plain id e' he').extended]
  exact Nat.zero_le _

/-- The bytes of the journal are the frames of the records, perhaps of one that was not taken and is
whole all the same, and torn bytes. -/
theorem Traced.framed (h : s.Traced rs rest) :
    ∃ new torn, new.length ≤ 1 ∧ Account.start.AdmitsAll (rs ++ new) ∧
      (∀ r ∈ rs ++ new, r.Framable) ∧ Frame.Torn torn ∧
      s.log.bytes = Frame.wholes (rs ++ new) ++ torn := by
  by_cases htorn : Frame.Torn rest
  · refine ⟨[], rest, Nat.zero_le 1, ?_⟩
    rw [List.append_nil]
    exact ⟨h.admitted, h.holds.framable, htorn, h.holds.bytes⟩
  · have hne : rest ≠ [] := by
      rintro rfl
      exact htorn Frame.torn_nil
    obtain ⟨r, hr, hframable, hprefix⟩ := h.pending hne
    have hwhole := (Frame.torn_or_whole hframable hprefix).resolve_left htorn
    refine ⟨[r], [], Nat.le_refl 1, h.admitted.snoc hr, h.holds.framable_snoc hframable,
      Frame.torn_nil, ?_⟩
    rw [h.holds.bytes, Frame.wholes_append, Frame.wholes_singleton, List.append_nil, hwhole]

/-- A store that is opened over the journal of a traced engine has what the engine has, and perhaps
the one record that was not taken and is whole all the same. -/
theorem Traced.reopens (h : s.Traced rs rest) {config : Config} {left : AttributeContents}
    {clock : AttributeValue}
    (hs : (Contents.openStore ⟨s.log.bytes, left⟩ config clock).2.2 = .ok s') :
    ∃ new, s'.Traced (rs ++ new) [] ∧ new.length ≤ 1 := by
  obtain ⟨new, torn, hnew, hadmits, hframable, htorn, hbytes⟩ := h.framed
  simp only [Contents.openStore, hbytes] at hs
  split at hs
  · cases hs
  next store events hleft =>
  exact ⟨new, traced_openStore hframable hadmits htorn
    (AttributeContents.refusing_of_openStore hleft) hs, hnew⟩

/-- A sound engine is opened again with the attribute store that is there then. -/
theorem Sound.reopens {found : SegmentId → AttributeId → AttributeValue} {rs' : List Record}
    {rest' : Bytes} (h : s.Sound rs rest found) (ht : s.Traced rs' rest') {config : Config}
    {left : AttributeContents} {clock : AttributeValue}
    (hs : (Contents.openStore ⟨s.log.bytes, left⟩ config clock).2.2 = .ok s') :
    ∃ new store events, s.log.records = rs ++ new ∧ left.openStore = .ok (store, events) ∧
      s'.Sound (rs ++ new) [] store.valuesOf ∧
      s'.Tidy (Record.Storable (rs ++ new)) s'.store := by
  obtain ⟨new', torn, -, hadmits, hframable, htorn, hbytes⟩ := ht.framed
  have hrecords := OperationLog.records_of_bytes hframable hbytes htorn
  obtain ⟨new, hnew⟩ := h.holds.exists_records
  rw [hrecords] at hnew
  rw [hnew] at hadmits hframable hbytes hrecords
  simp only [Contents.openStore, hbytes] at hs
  split at hs
  · cases hs
  next store events hleft =>
  have htaking := AttributeContents.refusing_of_openStore hleft
  obtain ⟨s₁, hs₁, hopened⟩ := exists_opened hframable hadmits htorn htaking config clock
  obtain rfl := Except.ok.inj (hs₁.symm.trans hs)
  have htraced := traced_openStore hframable hadmits htorn htaking hs
  refine ⟨new, store, events, hrecords, hleft,
    ⟨(Account.resembles_start _ _).admitsAll hadmits, hopened.agrees_found hadmits, htraced.holds⟩,
    fun id e he x v hv => ?_, AttributeStore.made_self _⟩
  rw [(hopened.plain id e he).unstored] at hv
  cases hv

end Engine

namespace Traffic

variable {t : Traffic} {rs : List Record} {rest : Bytes}

theorem traced_start (config : Config) (logged : Bool) (clock : AttributeValue) :
    (start config logged clock).engine.Traced [] [] := by
  obtain ⟨hsound, -⟩ := sound_start config logged clock
  exact ⟨trivial, hsound.agrees.outlines, hsound.holds, fun hne => absurd rfl hne,
    fun id e he => by cases he⟩

/-- The records by which the journal says more after something has happened. -/
def Brings (t : Traffic) (x : Stride) (new : List Record) : Prop :=
  match x with
  | .moved m => t.Commits m new
  | .reopened .. => new.length ≤ 1

/-- Whatever happens, the records of the journal say what the store has. -/
theorem traced_stride (h : t.engine.Traced rs rest) (x : Stride) :
    ∃ new rest', (t.stride x).engine.Traced (rs ++ new) rest' ∧ t.Brings x new := by
  cases x with
  | moved m =>
    obtain ⟨new, hpass, hcommits⟩ := step_passes h.outlines m
    obtain ⟨rest', htraced⟩ := h.passes hpass
    exact ⟨new, rest', htraced, hcommits⟩
  | reopened config left clock =>
    unfold stride
    simp only
    split
    · next s hs =>
      obtain ⟨new, htraced, hnew⟩ := h.reopens hs
      exact ⟨new, [], htraced, hnew⟩
    · exact ⟨[], rest, by rwa [List.append_nil], Nat.zero_le 1⟩

/-- After any history the records of the journal say what the store has. -/
theorem traced_along (h : t.engine.Traced rs rest) (strides : List Stride) :
    ∃ new rest', (t.along strides).engine.Traced (rs ++ new) rest' := by
  induction strides generalizing t rs rest with
  | nil => exact ⟨[], rest, by rwa [List.append_nil]⟩
  | cons x strides ih =>
    obtain ⟨new, rest₁, hstep, -⟩ := traced_stride h x
    obtain ⟨more, rest₂, hlater⟩ := ih hstep
    exact ⟨new ++ more, rest₂, by rwa [← List.append_assoc]⟩

/-- A reopening finds what was stored of the attributes that the journal does not name. -/
def Finds (t : Traffic) (x : Stride) : Prop :=
  match x with
  | .moved _ => True
  | .reopened _ left _ => ∀ store events, left.openStore = .ok (store, events) → ∀ id x,
      x.isCore = false → (id, x) ∉ t.engine.log.records.flatMap Record.named →
      store.value id x = t.engine.store.value id x

/-- After a run a reopening finds what was stored, even if the log of the attribute store was
cut. -/
theorem finds_run (config config' : Config) (logged : Bool) (clock clock' : AttributeValue)
    (moves : List Move) {left : AttributeContents}
    (hleft : ((start config logged clock).run moves).engine.Leaves left) :
    ((start config logged clock).run moves).Finds (.reopened config' left clock') := by
  obtain ⟨rs, rest, hsound, -, htidy⟩ := (sound_start config logged clock).run moves
  have ht := htidy (tidy_start config logged clock _)
  obtain ⟨new, hnew⟩ := hsound.engine.holds.exists_records
  obtain ⟨store₀, events₀, hopen, -, hnamed⟩ := hleft.openStore ht ⟨new, hnew.symm⟩
  intro store events hstore id x hx hout
  obtain ⟨rfl, -⟩ := Prod.mk.inj (Except.ok.inj (hopen.symm.trans hstore))
  have hfound : store₀.get? id x = none :=
    Option.eq_none_iff_forall_ne_some.mpr fun v hv => hout (hnamed id x v hv)
  have hstored : ((start config logged clock).run moves).engine.store.get? id x = none := by
    refine Option.eq_none_iff_forall_ne_some.mpr fun v hv => hout ?_
    rw [hnew, List.flatMap_append]
    exact List.mem_append_left _ (ht.made.stored hv).2.2
  rw [AttributeStore.value, AttributeStore.value, hfound, hstored]

/-- All reopenings find what was stored of the attributes that the journal does not name. -/
def Faithful (t : Traffic) : List Stride → Prop
  | [] => True
  | x :: strides => t.Finds x ∧ (t.stride x).Faithful strides

/-- What the store has is what its journal says over what was found in an attribute store, and what
waits for the present one the journal names. -/
structure Stands (t : Traffic) (rs : List Record) (rest : Bytes) (left : AttributeStore) :
    Prop where
  /-- The store is sound over what was found. -/
  sound : t.Sound rs rest left.valuesOf
  /-- What waits is of the records. -/
  tidy : ∃ earlier, t.engine.Tidy (Record.Storable rs) earlier
  /-- The journal can be replayed. -/
  traced : ∃ rs' rest', t.engine.Traced rs' rest'

variable {left : AttributeStore}

theorem stands_start (config : Config) (logged : Bool) (clock : AttributeValue) :
    (start config logged clock).Stands [] [] (.ofIndex .empty) := by
  have hnothing : (AttributeStore.ofIndex .empty).valuesOf = fun _ => noValues :=
    funext fun _ => AttributeStore.valuesOf_eq_noValues fun _ => rfl
  exact ⟨hnothing ▸ sound_start config logged clock, ⟨_, tidy_start config logged clock _⟩,
    ⟨_, _, traced_start config logged clock⟩⟩

/-- Whatever happens, the store stands over what it stood over, or over what a reopening found. -/
theorem stands_stride_over (h : t.Stands rs rest left) (x : Stride) :
    ∃ new rest' left', (t.stride x).Stands (rs ++ new) rest' left' ∧ (left' = left ∨
      (t.Finds x → ∀ id y, y.isCore = false → (id, y) ∉ (rs ++ new).flatMap Record.named →
        left'.value id y = t.engine.store.value id y)) := by
  obtain ⟨earlier, htidy⟩ := h.tidy
  obtain ⟨rs', rest₀, ht⟩ := h.traced
  obtain ⟨new', rest₁, htraced, -⟩ := traced_stride ht x
  cases x with
  | moved m =>
    obtain ⟨new, rest', hfollows⟩ := h.sound.step m
    exact ⟨new, rest', left, ⟨hfollows.sound, ⟨earlier, hfollows.tidy htidy⟩, ⟨_, _, htraced⟩⟩,
      Or.inl rfl⟩
  | reopened config contents clock =>
    unfold stride at htraced ⊢
    simp only at htraced ⊢
    split
    · next s hs =>
      obtain ⟨new, store, events, hrecords, hstore, hsound, htidy'⟩ :=
        h.sound.engine.reopens ht hs
      rw [hs] at htraced
      refine ⟨new, [], store, ⟨⟨hsound, fun o ho => absurd ho List.not_mem_nil⟩, ⟨_, htidy'⟩,
        ⟨_, _, htraced⟩⟩, Or.inr fun hfinds id y hy hout => ?_⟩
      exact hfinds store events hstore id y hy (hrecords ▸ hout)
    · exact ⟨[], rest, left, by rwa [List.append_nil], Or.inl rfl⟩

/-- Whatever happens, the store stands, and its segments grow older if a reopening finds what was
stored. -/
theorem stands_stride (h : t.Stands rs rest left) (x : Stride) :
    ∃ new rest' left', (t.stride x).Stands (rs ++ new) rest' left' ∧ (t.Finds x →
      (Account.after rs left.valuesOf).Grows (.after (rs ++ new) left'.valuesOf)) := by
  obtain ⟨earlier, htidy⟩ := h.tidy
  obtain ⟨new, rest', left', hstands, hover⟩ := stands_stride_over h x
  refine ⟨new, rest', left', hstands, fun hfinds => ?_⟩
  rcases hover with rfl | hleft
  · exact Account.grows_after hstands.sound.engine.admitted
  · exact h.sound.engine.grows htidy hstands.sound.engine (hleft hfinds)

/-- After any history the store stands, and after a faithful one its segments have grown older. -/
theorem stands_along (h : t.Stands rs rest left) (strides : List Stride) :
    ∃ new rest' left', (t.along strides).Stands (rs ++ new) rest' left' ∧ (t.Faithful strides →
      (Account.after rs left.valuesOf).Grows (.after (rs ++ new) left'.valuesOf)) := by
  induction strides generalizing t rs rest left with
  | nil => exact ⟨[], rest, left, by rwa [List.append_nil], fun _ => by
      rw [List.append_nil]; exact .refl _⟩
  | cons x strides ih =>
    obtain ⟨new, rest₁, left₁, hstep, hgrows⟩ := stands_stride h x
    obtain ⟨more, rest₂, left₂, hlater, hgrows'⟩ := ih hstep
    refine ⟨new ++ more, rest₂, left₂, by rwa [← List.append_assoc], fun hf => ?_⟩
    rw [← List.append_assoc]
    exact (hgrows hf.1).trans (hgrows' hf.2)

/-- After any history of a new store the store stands. -/
theorem stands_start_along (config : Config) (logged : Bool) (clock : AttributeValue)
    (strides : List Stride) :
    ∃ rs rest left, ((start config logged clock).along strides).Stands rs rest left := by
  obtain ⟨new, rest, left, hstands, -⟩ := stands_along (stands_start config logged clock) strides
  exact ⟨[] ++ new, rest, left, hstands⟩

/-- An open store keeps its configuration. -/
theorem config_stride (h : t.engine.Traced rs rest) {x : Stride} (hx : x.staysOpen = true) :
    (t.stride x).engine.config = t.engine.config := by
  cases x with
  | moved m =>
    obtain ⟨new, hpasses, -⟩ := step_passes h.outlines m
    exact hpasses.config
  | reopened config contents clock => cases hx

/-- An operation that has ended stays as it ended while the store is open. -/
theorem result?_stride {i : Nat} {result : Except SegmentError Answer}
    (h : t.result? i = some result) {x : Stride} (hx : x.staysOpen = true) :
    (t.stride x).result? i = some result := by
  cases x with
  | moved m => exact result?_step h m
  | reopened config contents clock => cases hx

theorem result?_along {i : Nat} {result : Except SegmentError Answer}
    (h : t.result? i = some result) {strides : List Stride}
    (hopen : ∀ x ∈ strides, x.staysOpen = true) :
    (t.along strides).result? i = some result := by
  induction strides generalizing t with
  | nil => exact h
  | cons x strides ih =>
    obtain ⟨hx, hstrides⟩ := List.forall_mem_cons.mp hopen
    exact ih (result?_stride h hx) hstrides

end Traffic

end Segments
