import Segments.Proofs.Failure
import Segments.Proofs.Observation

/-!
# Batches over the tiers

A batch of updates does not tell in which tier a value is: with what was read of the attribute store
beforehand, each update is evaluated against the value that a look-up gives, so the order of a batch
decides only which refusal is reported. What is applied is then found wherever trimming and the
store leave it. For an attribute that is not in the batch this takes that its cached value is also
the one below the cache, as it is in every state of a run; a value that was put into the store past
the cache comes to light when the cached one is dropped.
-/

namespace Segments

/-- Entries that stand in the order of their stamps need not be sorted. -/
theorem AttributeCache.byAge_of_pairwise {c : AttributeCache}
    (h : c.extended.entries.Pairwise fun a b => a.2.lastUsed ≤ b.2.lastUsed) :
    c.byAge = c.extended.entries :=
  List.mergeSort_of_pairwise (h.imp decide_eq_true)

/-- The value that an update gives, if its condition holds. -/
def Update.outcome (u : Update) (current : AttributeValue) : AttributeValue :=
  match u.evaluate current with
  | .ok v => v
  | .error _ => nullValue

namespace Batch

variable {current : AttributeId → AttributeValue} {updates : List Update} {id : AttributeId}
  {refusal : Refusal}

/-- A batch of updates that each succeed gives the outcome of each. -/
theorem evaluate_of_forall (h : ∀ u ∈ updates, ∃ v, u.evaluate (current u.id) = .ok v) :
    evaluate current updates = .ok (updates.map fun u => (u.id, u.outcome (current u.id))) := by
  induction updates with
  | nil => rfl
  | cons u rest ih =>
    rw [List.forall_mem_cons] at h
    obtain ⟨⟨v, hv⟩, hrest⟩ := h
    simp only [evaluate, Update.outcome, hv, ih hrest, List.map_cons]

/-- Each update of a batch that succeeds does so. -/
theorem forall_of_evaluate {values : AttributeValues} (h : evaluate current updates = .ok values) :
    ∀ u ∈ updates, ∃ v, u.evaluate (current u.id) = .ok v := by
  induction updates generalizing values with
  | nil => exact List.forall_mem_nil _
  | cons u rest ih =>
    rw [evaluate] at h
    split at h
    · cases h
    · next v hv =>
      split at h
      · cases h
      · next values' hrest => exact List.forall_mem_cons.mpr ⟨⟨v, hv⟩, ih hrest⟩

/-- After an update that succeeds, the first to fail is one of the rest. -/
theorem evaluate_cons_eq_error {u : Update} {v : AttributeValue} {failure : AttributeId × Refusal}
    (hu : u.evaluate (current u.id) = .ok v) :
    evaluate current (u :: updates) = .error failure ↔
      evaluate current updates = .error failure := by
  rw [evaluate, hu]
  cases evaluate current updates <;> simp

/-- The first update that is refused is reported. -/
theorem evaluate_eq_error_iff : evaluate current updates = .error (id, refusal) ↔
    ∃ before u after, updates = before ++ u :: after ∧
      (∀ w ∈ before, ∃ v, w.evaluate (current w.id) = .ok v) ∧
      u.evaluate (current u.id) = .error refusal ∧ id = u.id := by
  induction updates with
  | nil =>
    constructor
    · intro h
      cases h
    · rintro ⟨before, u, after, hsplit, -⟩
      simp at hsplit
  | cons u rest ih =>
    cases hu : u.evaluate (current u.id) with
    | error refused =>
      rw [evaluate, hu]
      simp only [Except.error.injEq, Prod.mk.injEq]
      constructor
      · rintro ⟨rfl, rfl⟩
        exact ⟨[], u, rest, rfl, List.forall_mem_nil _, hu, rfl⟩
      · rintro ⟨before, w, after, hsplit, hbefore, hw, rfl⟩
        cases before with
        | nil =>
          obtain ⟨rfl, -⟩ := List.cons.inj hsplit
          exact ⟨rfl, Except.error.inj (hu.symm.trans hw)⟩
        | cons w' before =>
          obtain ⟨rfl, -⟩ := List.cons.inj hsplit
          obtain ⟨v, hv⟩ := hbefore u List.mem_cons_self
          rw [hu] at hv
          cases hv
    | ok v =>
      rw [evaluate_cons_eq_error hu, ih]
      constructor
      · rintro ⟨before, w, after, rfl, hbefore, hw⟩
        exact ⟨u :: before, w, after, rfl, List.forall_mem_cons.mpr ⟨⟨v, hu⟩, hbefore⟩, hw⟩
      · rintro ⟨before, w, after, hsplit, hbefore, hw⟩
        cases before with
        | nil =>
          obtain ⟨rfl, -⟩ := List.cons.inj hsplit
          rw [hu] at hw
          cases hw.1
        | cons w' before =>
          obtain ⟨rfl, rfl⟩ := List.cons.inj hsplit
          exact ⟨before, w, after, rfl, (List.forall_mem_cons.mp hbefore).2, hw⟩

end Batch

/-! ## Evaluation step by step -/

namespace AttributeTiers

/-- Evaluates updates one after another, each against what memory knows or what was read of the
store beforehand, and marks what is looked at as just used. -/
def evaluateFrom (stored : AttributeValues) :
    AttributeTiers → List Update → AttributeTiers × Except (AttributeId × Refusal) AttributeValues
  | t, [] => (t, .ok [])
  | t, u :: rest =>
    let (cache, cached) := t.cache.get u.id
    let t := { t with cache }
    let current := ((cached.or (t.unstored.get? u.id)).or (stored.lookup u.id)).getD nullValue
    match u.evaluate current with
    | .error refusal => (t, .error (u.id, refusal))
    | .ok value =>
      match t.evaluateFrom stored rest with
      | (t, .error failure) => (t, .error failure)
      | (t, .ok values) => (t, .ok ((u.id, value) :: values))

/-- What is looked at is marked, and the values are those of the batch against one view. -/
theorem evaluateFrom_eq (stored : AttributeValues) (t : AttributeTiers) (updates : List Update)
    {current : AttributeId → AttributeValue}
    (h : ∀ x, current x = ((t.resident? x).or (stored.lookup x)).getD nullValue) :
    t.evaluateFrom stored updates =
      (t.touchAll (Batch.consulted current updates), Batch.evaluate current updates) := by
  induction updates generalizing t with
  | nil => rfl
  | cons u rest ih =>
    have hcurrent : (((t.cache.get u.id).2.or (t.unstored.get? u.id)).or
        (stored.lookup u.id)).getD nullValue = current u.id := (h u.id).symm
    have htouched := ih { t with cache := (t.cache.get u.id).1 } fun x => by
      rw [h x, resident?, resident?, AttributeCache.get, AttributeCache.peek_touch]
    simp only [evaluateFrom, hcurrent, htouched, Batch.consulted, Batch.evaluate]
    cases u.evaluate (current u.id) with
    | error refusal => rfl
    | ok value => cases Batch.evaluate current rest <;> rfl

end AttributeTiers

namespace Entry

/-- Evaluates a batch on a segment: what memory does not know and an update looks at is read of the
store, and then one update after another is evaluated. -/
def evaluate (e : Entry) (store : AttributeStore) (updates : List Update) :
    AttributeTiers × Except SegmentError AttributeValues :=
  match Engine.fetch (fun id ids => .ok (store.lookup id ids)) e updates with
  | .error err => (e.metadata.attributes, .error err)
  | .ok stored =>
    match e.metadata.attributes.evaluateFrom stored updates with
    | (t, .error (id, refusal)) => (t, .error (.attributeUpdateFailed e.name id refusal.message))
    | (t, .ok values) => (t, .ok values)

/-- The present values of a segment, each from the first tier that has it. -/
def committed (e : Entry) (store : AttributeStore) (x : AttributeId) : AttributeValue :=
  e.metadata.attributes.value store e.id x

/-- A segment is evaluated as in a store, and what is looked at is marked as there. -/
theorem evaluate_eq_engine (s : Engine) (e : Entry) (updates : List Update) :
    e.evaluate s.store updates =
      (e.metadata.attributes.touchAll (Batch.consulted (s.valueOf e) updates),
        s.evaluate e updates) := by
  obtain ⟨stored, hfetch, hvalues⟩ := s.valueBy_fetch e updates
  have hsteps : e.metadata.attributes.evaluateFrom stored updates =
      (e.metadata.attributes.touchAll (Batch.consulted (Engine.valueBy e stored) updates),
        Batch.evaluate (Engine.valueBy e stored) updates) :=
    AttributeTiers.evaluateFrom_eq stored _ updates fun _ => rfl
  rw [evaluate, Engine.evaluate, hfetch, ← Batch.evaluate_congr hvalues,
    ← Batch.consulted_congr hvalues]
  simp only [hsteps]
  cases Batch.evaluate (Engine.valueBy e stored) updates <;> rfl

/-- Over any store a batch is evaluated against the values over all tiers. -/
theorem evaluate_eq (e : Entry) (store : AttributeStore) (updates : List Update) :
    e.evaluate store updates =
      (e.metadata.attributes.touchAll (Batch.consulted (e.committed store) updates),
        match Batch.evaluate (e.committed store) updates with
        | .error (id, refusal) => .error (.attributeUpdateFailed e.name id refusal.message)
        | .ok values => .ok values) :=
  e.evaluate_eq_engine { (default : Engine) with store } updates

end Entry

/-! ## Looking up -/

namespace AttributeTiers

/-- A look-up with nothing between its phases; what was read becomes resident if it is asked for. -/
def lookUp (t : AttributeTiers) (store : AttributeStore) (segment : SegmentId) (name : String)
    (maxCached : Nat) (cache : Bool) (ids : List AttributeId) : AttributeTiers × AttributeValues :=
  let l := AttributeLookup.ofTiers t ids
  let t := t.touchAll ids
  if l.missing.isEmpty then (t, l.answer [])
  else
    let fetched := store.lookup segment l.missing
    if cache then
      let (t, values, _) := l.cacheFetched t store segment name maxCached fetched
      (t, l.answer values)
    else (t, l.answer fetched)

variable {t : AttributeTiers} {store : AttributeStore} {segment : SegmentId} {x : AttributeId}
  {ids : List AttributeId}

/-- With what the store has of what is missing, a look-up is answered by the values over all
tiers. -/
theorem answer_of_lookup {fetched : AttributeValues}
    (h : ∀ x, fetched.lookup x =
      if x ∈ (AttributeLookup.ofTiers t ids).missing then store.get? segment x else none) :
    (AttributeLookup.ofTiers t ids).answer fetched =
      ids.eraseDups.map fun x => (x, t.value store segment x) := by
  unfold AttributeLookup.answer
  refine List.map_congr_left fun x hx => Prod.ext rfl ?_
  have hmem : x ∈ ids := List.mem_eraseDups.mp hx
  have hfound : (AttributeLookup.ofTiers t ids).found.lookup x = t.resident? x := by
    rw [AttributeLookup.ofTiers, AttributeStore.lookup_filterMap, if_pos hmem]
  rw [hfound, h]
  unfold value
  cases hr : t.resident? x with
  | some v => rfl
  | none =>
    cases hc : x.isCore <;> simp [AttributeLookup.mem_missing_ofTiers, hmem, hr, hc]

/-- Making resident what was read tells what was read, also where an attribute is asked for
twice. -/
theorem foldl_settle_of_absent (t : AttributeTiers) (fetched : AttributeValues)
    (h : ∀ x ∈ ids, x.isCore = false ∧ (t.resident? x = none ∨
      ∃ v, t.resident? x = some v ∧ fetched.lookup x = some v)) (answers : AttributeValues) :
    (ids.foldl (AttributeLookup.settle fetched) (t, answers)).2 =
      answers ++ ids.filterMap fun x => (fetched.lookup x).map (x, ·) := by
  induction ids generalizing t answers with
  | nil => simp
  | cons x ids ih =>
    rw [List.forall_mem_cons] at h
    obtain ⟨⟨hx, hknown⟩, hrest⟩ := h
    rw [List.foldl_cons]
    rcases hknown with hnone | ⟨v, hv, hread⟩
    · cases hread : fetched.lookup x with
      | none =>
        have hsettle : AttributeLookup.settle fetched (t, answers) x = (t, answers) := by
          simp only [AttributeLookup.settle, hnone, hread]
        rw [hsettle, ih t hrest, List.filterMap_cons, hread]
        rfl
      | some v =>
        have hsettle : AttributeLookup.settle fetched (t, answers) x =
            ({ t with cache := (t.cache.insertIfAbsent x v).1 }, answers ++ [(x, v)]) := by
          simp only [AttributeLookup.settle, hnone, hread]
        obtain ⟨hpeek, hun⟩ := Option.or_eq_none_iff.mp hnone
        rw [hsettle, ih _ fun y hy => ?_, List.filterMap_cons, hread]
        · simp
        · refine ⟨(hrest y hy).1, ?_⟩
          rw [resident?, AttributeCache.peek_insertIfAbsent _ hpeek]
          by_cases hyx : y = x
          · subst hyx
            simp only [↓reduceIte, hun, Option.or_none, hread]
            cases hk : kept v with
            | none => exact Or.inl rfl
            | some w => exact Or.inr ⟨w, rfl, by rw [eq_of_kept_eq_some hk]⟩
          · rw [if_neg hyx]
            exact (hrest y hy).2
    · have hsettle : AttributeLookup.settle fetched (t, answers) x = (t, answers ++ [(x, v)]) := by
        simp only [AttributeLookup.settle, hv]
      rw [hsettle, ih t hrest, List.filterMap_cons, hread]
      simp

/-- A look-up is answered by the values over all tiers. -/
theorem lookUp_eq (t : AttributeTiers) (store : AttributeStore) (segment : SegmentId)
    (name : String) (maxCached : Nat) (cache : Bool) (ids : List AttributeId) :
    (t.lookUp store segment name maxCached cache ids).2 =
      ids.eraseDups.map fun x => (x, t.value store segment x) := by
  have hread : ∀ x, (store.lookup segment (AttributeLookup.ofTiers t ids).missing).lookup x =
      if x ∈ (AttributeLookup.ofTiers t ids).missing then store.get? segment x else none :=
    AttributeStore.lookup_lookup store segment _
  unfold lookUp
  simp only
  split
  · next hnone =>
    rw [List.isEmpty_iff] at hnone
    exact answer_of_lookup fun x => by rw [hnone]; rfl
  · cases cache with
    | false => exact answer_of_lookup hread
    | true =>
      refine answer_of_lookup fun x => ?_
      have hepoch : (t.touchAll ids).epoch = (AttributeLookup.ofTiers t ids).epoch := rfl
      have habsent : ∀ x ∈ (AttributeLookup.ofTiers t ids).missing, x.isCore = false ∧
          ((t.touchAll ids).resident? x = none ∨ ∃ v, (t.touchAll ids).resident? x = some v ∧
            (store.lookup segment (AttributeLookup.ofTiers t ids).missing).lookup x = some v) := by
        intro x hx
        obtain ⟨-, hnone, hcore⟩ := AttributeLookup.mem_missing_ofTiers.mp hx
        exact ⟨hcore, Or.inl (((alike_touchAll t ids).resident? x).trans hnone)⟩
      have hsettled := foldl_settle_of_absent (t.touchAll ids) _ habsent []
      simp only [AttributeLookup.cacheFetched, hepoch, ↓reduceIte, hsettled, List.nil_append,
        AttributeStore.lookup_filterMap, hread]
      split <;> rfl

/-! ## Applying -/

/-- What a look-up of an attribute finds outlasts the cache: no core value waits for the store, and
a cached extended value that is not to be replaced is also the one below the cache. -/
structure Backs (t : AttributeTiers) (store : AttributeStore) (segment : SegmentId)
    (replaced : List AttributeId) (x : AttributeId) : Prop where
  /-- No core value waits for the store. -/
  core : x.isCore = true → t.unstored.get? x = none
  /-- A cached extended value is also the one below the cache. -/
  extended : x.isCore = false → x ∉ replaced → ∀ v, t.cache.peek x = some v →
    v = (t.unstored.get? x).getD (store.value segment x)

/-- Where the tiers agree nothing depends on the cache. -/
theorem Coherent.backs {committed : AttributeId → AttributeValue}
    (h : t.Coherent store segment committed) (replaced : List AttributeId) (x : AttributeId) :
    t.Backs store segment replaced x :=
  ⟨h.unstored_core x, fun hx _ v hv => (h.cached x v hx hv).trans (h.backed x hx).symm⟩

/-- Whether a look-up outlasts the cache does not depend on when attributes were used. -/
theorem Backs.alike {replaced : List AttributeId} (h : t.Backs store segment replaced x)
    {t' : AttributeTiers} (ha : t.Alike t') : t'.Backs store segment replaced x :=
  ⟨fun hx => by rw [ha.unstored]; exact h.core hx, fun hx hout v hv => by
    rw [ha.unstored]
    exact h.extended hx hout v (ha.peek x ▸ hv)⟩

/-- An extended attribute is looked up in the cache, then among what waits, then in the store. -/
theorem value_of_extended (t : AttributeTiers) (store : AttributeStore) (segment : SegmentId)
    (hx : x.isCore = false) : t.value store segment x =
      (t.cache.peek x).getD ((t.unstored.get? x).getD (store.value segment x)) := by
  unfold value resident?
  cases t.cache.peek x <;> cases t.unstored.get? x <;> simp [hx, AttributeStore.value]

/-- A core attribute is looked up in the cache alone. -/
theorem value_of_core (t : AttributeTiers) (store : AttributeStore) (segment : SegmentId)
    (hx : x.isCore = true) (hun : t.unstored.get? x = none) :
    t.value store segment x = (t.cache.peek x).getD nullValue := by
  unfold value resident?
  cases t.cache.peek x <;> simp [hx, hun]

/-- Recorded values are in the cache, the last one of each attribute. -/
theorem peek_foldl_record (t : AttributeTiers) (values : AttributeValues) (x : AttributeId) :
    (values.foldl record t).cache.peek x =
      ((values.reverse.lookup x).map kept).getD (t.cache.peek x) := by
  induction values using List.reverseRecOn with
  | nil => rfl
  | append_singleton values v ih =>
    rw [List.foldl_append, List.foldl_cons, List.foldl_nil, record, AttributeCache.peek_set, ih,
      List.reverse_concat, List.lookup_cons]
    by_cases hx : x = v.1
    · simp [hx]
    · have hne : (x == v.1) = false := by simpa using hx
      rw [if_neg hx, hne]

/-- Recording values lets no core value wait for the store. -/
theorem unstored_foldl_record_of_core (t : AttributeTiers) (values : AttributeValues)
    (hx : x.isCore = true) : (values.foldl record t).unstored.get? x = t.unstored.get? x := by
  induction values generalizing t with
  | nil => rfl
  | cons v values ih =>
    rw [List.foldl_cons, ih, record]
    split
    · next hv =>
      have hne : x ≠ v.1 := fun hxv => by simp [AttributeId.isExtended, ← hxv, hx] at hv
      rw [Table.get?_insert, if_neg hne]
    · rfl

/-- Recorded extended values wait for the store, the last one of each attribute. -/
theorem unstored_foldl_record_of_extended (t : AttributeTiers) (values : AttributeValues)
    (hx : x.isCore = false) : (values.foldl record t).unstored.get? x =
      (values.reverse.lookup x).or (t.unstored.get? x) := by
  induction values using List.reverseRecOn with
  | nil => rfl
  | append_singleton values v ih =>
    rw [List.foldl_append, List.foldl_cons, List.foldl_nil, record, List.reverse_concat,
      List.lookup_cons]
    by_cases hxv : x = v.1
    · have hv : v.1.isExtended = true := by simp [AttributeId.isExtended, ← hxv, hx]
      simp [hv, hxv, Table.get?_insert]
    · have hne : (x == v.1) = false := by simpa using hxv
      rw [hne]
      split
      · rw [Table.get?_insert, if_neg hxv, ih]
      · exact ih

/-- Values recorded at once are those recorded one after another. -/
theorem recordAll_alike (t : AttributeTiers) (values : AttributeValues) :
    (t.recordAll values).cache = (values.foldl record t).cache ∧
      (t.recordAll values).unstored = (values.foldl record t).unstored := by
  unfold recordAll
  simp only
  split <;> exact ⟨rfl, rfl⟩

/-- What is found below the cache is the same before and after a write-through. -/
theorem below_writeThrough (t : AttributeTiers) (store : AttributeStore) (segment : SegmentId)
    (name : String) (x : AttributeId) :
    ((t.writeThrough store segment name).1.unstored.get? x).getD
        ((t.writeThrough store segment name).2.1.value segment x) =
      (t.unstored.get? x).getD (store.value segment x) := by
  rcases writeThrough_cases t store segment name with ⟨ht, hs⟩ | ⟨ht, -, hget⟩
  · rw [ht, hs]
  · rw [ht]
    simp only [AttributeStore.value, hget, ↓reduceIte, Table.get?_empty, Option.getD_none]
    cases t.unstored.get? x <;> simp

/-- A write-through leaves the cache. -/
theorem cache_writeThrough (t : AttributeTiers) (store : AttributeStore) (segment : SegmentId)
    (name : String) : (t.writeThrough store segment name).1.cache = t.cache := by
  rcases writeThrough_cases t store segment name with ⟨ht, -⟩ | ⟨ht, -, -⟩ <;> rw [ht]

/-- After values were applied, each of them is the value of its attribute, and any other attribute
has its value as before, whatever the bound and whether or not the store takes them. -/
theorem value_apply (name : String) (maxCached : Nat) {values : AttributeValues}
    (h : t.Backs store segment (values.map Prod.fst) x) :
    (t.apply store segment name maxCached values).1.value
        (t.apply store segment name maxCached values).2.1 segment x =
      (values.reverse.lookup x).getD (t.value store segment x) := by
  obtain ⟨hcache, hunstored⟩ := t.recordAll_alike values
  have hpeek := t.peek_foldl_record values x
  rw [← hcache, ← cache_writeThrough _ store segment name] at hpeek
  have hbelow := below_writeThrough (t.recordAll values) store segment name x
  have hwaits := writeThrough_cases (t.recordAll values) store segment name
  rw [hunstored] at hbelow
  simp only [apply]
  generalize (t.recordAll values).writeThrough store segment name = w at hpeek hbelow hwaits ⊢
  obtain ⟨t', store', events⟩ := w
  simp only at hpeek hbelow hwaits ⊢
  cases hx : x.isCore with
  | true =>
    have hun : t'.unstored.get? x = none := by
      rcases hwaits with ⟨rfl, -⟩ | ⟨rfl, -, -⟩
      · rw [hunstored, unstored_foldl_record_of_core t values hx, h.core hx]
      · exact Table.get?_empty x
    have htrim : (t'.trim maxCached).1.cache.peek x = t'.cache.peek x :=
      AttributeCache.peek_trim_of_core t'.cache maxCached hx
    rw [value_of_core t _ _ hx (h.core hx), value_of_core (t'.trim maxCached).1 _ _ hx hun, htrim,
      hpeek]
    cases values.reverse.lookup x <;> simp
  | false =>
    have hout : values.reverse.lookup x = none → x ∉ values.map Prod.fst := fun hnone hin => by
      obtain ⟨v, hv, rfl⟩ := List.mem_map.mp hin
      simpa using List.lookup_eq_none_iff.mp hnone v (List.mem_reverse.mpr hv)
    rw [unstored_foldl_record_of_extended t values hx] at hbelow
    rw [value_of_extended t _ _ hx, value_of_extended (t'.trim maxCached).1 _ _ hx]
    have hun : (t'.trim maxCached).1.unstored = t'.unstored := rfl
    rw [hun, hbelow]
    cases hp : (t'.trim maxCached).1.cache.peek x with
    | some v =>
      -- what is still cached was cached before, or is one of the values
      have hp' := AttributeCache.peek_of_peek_trim hp
      rw [hpeek] at hp'
      cases hl : values.reverse.lookup x with
      | some v' =>
        rw [hl] at hp'
        exact eq_of_kept_eq_some hp'
      | none =>
        rw [hl] at hp'
        have hcached : t.cache.peek x = some v := hp'
        rw [hcached]
        rfl
    | none =>
      cases hl : values.reverse.lookup x with
      | some v' => rfl
      | none =>
        cases hcached : t.cache.peek x with
        | some v => exact (h.extended hx (hout hl) v hcached).symm
        | none => rfl

end AttributeTiers

/-! ## A batch as a whole -/

namespace Entry

/-- In a list of updates with different attributes each is found by its own. -/
theorem lookup_reverse_map {updates : List Update} (h : (updates.map Update.id).Nodup)
    (f : Update → AttributeValue) {u : Update} (hu : u ∈ updates) :
    (updates.map fun u => (u.id, f u)).reverse.lookup u.id = some (f u) := by
  have hnodup : (((updates.map fun u => (u.id, f u)).reverse).map Prod.fst).Nodup := by
    rw [List.map_reverse, List.map_map]
    exact (List.reverse_perm _).nodup_iff.mpr h
  exact (Table.lookup_eq_some_iff_mem hnodup).mpr
    (List.mem_reverse.mpr (List.mem_map.mpr ⟨u, hu, rfl⟩))

/-- What a look-up of one attribute finds after a batch was evaluated and values were applied. -/
def lookUpAfter (e : Entry) (store : AttributeStore) (updates : List Update) (maxCached : Nat)
    (values : AttributeValues) (cache : Bool) (x : AttributeId) : AttributeValues :=
  let (t, store, _) := (e.evaluate store updates).1.apply store e.id e.name maxCached values
  (t.lookUp store e.id e.name maxCached cache [x]).2

/-- What a batch of updates does to a segment, over all tiers and in any order. -/
structure Resolves (e : Entry) (store : AttributeStore) (updates : List Update) : Prop where
  /-- A look-up is answered by the value that the first tier has. -/
  looks : ∀ (name : String) (maxCached : Nat) (cache : Bool) (ids : List AttributeId),
    (e.metadata.attributes.lookUp store e.id name maxCached cache ids).2 =
      ids.eraseDups.map fun x => (x, e.committed store x)
  /-- The batch succeeds exactly when every update succeeds against that value. -/
  succeeds : (∃ values, (e.evaluate store updates).2 = .ok values) ↔
    ∀ u ∈ updates, ∃ v, u.evaluate (e.committed store u.id) = .ok v
  /-- It then gives what each update gives. -/
  values : ∀ values, (e.evaluate store updates).2 = .ok values →
    values = updates.map fun u => (u.id, u.outcome (e.committed store u.id))
  /-- In another order it succeeds or fails as before. -/
  orders : ∀ batch, batch.Perm updates → ((∃ values, (e.evaluate store batch).2 = .ok values) ↔
    ∃ values, (e.evaluate store updates).2 = .ok values)
  /-- In another order it gives the same values in that order. -/
  permutes : ∀ batch values, batch.Perm updates → (e.evaluate store updates).2 = .ok values →
    (e.evaluate store batch).2 =
      .ok (batch.map fun u => (u.id, u.outcome (e.committed store u.id)))
  /-- It fails with the first update in its order that fails against that value. -/
  fails : ∀ err, (e.evaluate store updates).2 = .error err ↔
    ∃ before u after refusal, updates = before ++ u :: after ∧
      (∀ w ∈ before, ∃ v, w.evaluate (e.committed store w.id) = .ok v) ∧
      u.evaluate (e.committed store u.id) = .error refusal ∧
      err = .attributeUpdateFailed e.name u.id refusal.message
  /-- When it is applied, a look-up of an attribute in the batch finds what its update gives. -/
  replaces : ∀ values, (e.evaluate store updates).2 = .ok values →
    ∀ maxCached cache, ∀ u ∈ updates,
      e.metadata.attributes.Backs store e.id (updates.map Update.id) u.id →
        e.lookUpAfter store updates maxCached values cache u.id =
          [(u.id, u.outcome (e.committed store u.id))]
  /-- A look-up of any other attribute finds what it found before. -/
  leaves : ∀ values, (e.evaluate store updates).2 = .ok values →
    ∀ maxCached cache x, x ∉ updates.map Update.id →
      e.metadata.attributes.Backs store e.id (updates.map Update.id) x →
        e.lookUpAfter store updates maxCached values cache x = [(x, e.committed store x)]

variable {e : Entry} {store : AttributeStore} {updates : List Update} {values : AttributeValues}

/-- An evaluation succeeds exactly if the batch does against the committed values. -/
theorem evaluate_eq_ok_iff : (e.evaluate store updates).2 = .ok values ↔
    Batch.evaluate (e.committed store) updates = .ok values := by
  rw [evaluate_eq]
  cases Batch.evaluate (e.committed store) updates <;> simp

/-- It fails exactly if the batch does, and reports the attribute where the batch fails. -/
theorem evaluate_eq_error_iff {err : SegmentError} : (e.evaluate store updates).2 = .error err ↔
    ∃ id refusal, Batch.evaluate (e.committed store) updates = .error (id, refusal) ∧
      err = .attributeUpdateFailed e.name id refusal.message := by
  rw [evaluate_eq]
  cases Batch.evaluate (e.committed store) updates with
  | error failure => simp [eq_comm, Prod.ext_iff]
  | ok values => simp

/-- It succeeds exactly if each update does on its own. -/
theorem exists_evaluate_iff : (∃ values, (e.evaluate store updates).2 = .ok values) ↔
    ∀ u ∈ updates, ∃ v, u.evaluate (e.committed store u.id) = .ok v := by
  constructor
  · rintro ⟨values, h⟩
    exact Batch.forall_of_evaluate (evaluate_eq_ok_iff.mp h)
  · intro h
    exact ⟨_, evaluate_eq_ok_iff.mpr (Batch.evaluate_of_forall h)⟩

/-- If it succeeds, its values are the outcomes of the updates in order. -/
theorem values_of_evaluate (h : (e.evaluate store updates).2 = .ok values) :
    values = updates.map fun u => (u.id, u.outcome (e.committed store u.id)) := by
  have hall := Batch.evaluate_of_forall (exists_evaluate_iff.mp ⟨values, h⟩)
  exact Except.ok.inj ((evaluate_eq_ok_iff.mp h).symm.trans hall)

/-- What is found of an attribute after a batch was applied. -/
theorem lookUpAfter_eq (h : (e.evaluate store updates).2 = .ok values) (maxCached : Nat)
    (cache : Bool) {x : AttributeId}
    (hx : e.metadata.attributes.Backs store e.id (updates.map Update.id) x) :
    e.lookUpAfter store updates maxCached values cache x =
      [(x, (values.reverse.lookup x).getD (e.committed store x))] := by
  have hids : updates.map Update.id = values.map Prod.fst := by
    rw [values_of_evaluate h, List.map_map]
    rfl
  have halike : e.metadata.attributes.Alike (e.evaluate store updates).1 := by
    rw [evaluate_eq]
    exact AttributeTiers.alike_touchAll _ _
  have hsame : (e.evaluate store updates).1.value store e.id x = e.committed store x := by
    rw [committed, AttributeTiers.value, AttributeTiers.value, halike.resident?]
  have hvalue := AttributeTiers.value_apply e.name maxCached ((hids ▸ hx).alike halike)
  rw [hsame] at hvalue
  have hone : [x].eraseDups = [x] := by simp [List.eraseDups_cons]
  simp only [lookUpAfter, AttributeTiers.lookUp_eq, hone, List.map_singleton]
  rw [hvalue]

/-- Whatever a segment and the attribute store hold, a batch of updates of different attributes is
evaluated without regard to the tiers and the order: it succeeds exactly when each update does
against the value that a look-up finds, gives then what each update gives, and fails otherwise with
the first update that does. When it is applied, with whatever bound and whether or not the store
takes what it is offered, look-ups find the new values, and of the other attributes the values as
before, where the tiers agree on them. -/
theorem resolves (e : Entry) (store : AttributeStore) (updates : List Update)
    (hdistinct : (updates.map Update.id).Nodup) : e.Resolves store updates where
  looks name maxCached cache ids := AttributeTiers.lookUp_eq _ store e.id name maxCached cache ids
  succeeds := exists_evaluate_iff
  values _ h := values_of_evaluate h
  orders batch hperm := by
    rw [exists_evaluate_iff, exists_evaluate_iff]
    exact ⟨fun h u hu => h u (hperm.symm.subset hu), fun h u hu => h u (hperm.subset hu)⟩
  permutes batch values hperm h := by
    have hall := exists_evaluate_iff.mp ⟨values, h⟩
    exact evaluate_eq_ok_iff.mpr (Batch.evaluate_of_forall fun u hu => hall u (hperm.subset hu))
  fails err := by
    rw [evaluate_eq_error_iff]
    simp only [Batch.evaluate_eq_error_iff]
    constructor
    · rintro ⟨_, refusal, ⟨before, u, after, hsplit, hbefore, hu, rfl⟩, rfl⟩
      exact ⟨before, u, after, refusal, hsplit, hbefore, hu, rfl⟩
    · rintro ⟨before, u, after, refusal, hsplit, hbefore, hu, rfl⟩
      exact ⟨u.id, refusal, ⟨before, u, after, hsplit, hbefore, hu, rfl⟩, rfl⟩
  replaces values h maxCached cache u hu hbacks := by
    rw [lookUpAfter_eq h maxCached cache hbacks, values_of_evaluate h,
      lookup_reverse_map hdistinct (fun u => u.outcome (e.committed store u.id)) hu]
    rfl
  leaves values h maxCached cache x hx hbacks := by
    have hnone : values.reverse.lookup x = none := by
      rw [List.lookup_eq_none_iff]
      intro v hv
      rw [values_of_evaluate h, List.mem_reverse, List.mem_map] at hv
      obtain ⟨u, hu, rfl⟩ := hv
      have hne : x ≠ u.id := fun hxu => hx (hxu ▸ List.mem_map_of_mem hu)
      simpa using hne
    rw [lookUpAfter_eq h maxCached cache hbacks, hnone]
    rfl

/-- In every state of a run the tiers of a segment that can be read agree on each attribute. -/
theorem backs_run (config : Config) (logged : Bool) (clock : AttributeValue) (moves : List Move) :
    let s := ((Traffic.start config logged clock).run moves).engine
    ∀ id e, s.live? id = some e → e.state = .active ∨ e.state = .sealed → ∀ replaced x,
      e.metadata.attributes.Backs s.store e.id replaced x := by
  obtain ⟨rs, rest, hsound, -, -⟩ := (Traffic.sound_start config logged clock).run moves
  intro s id e hl hstate replaced x
  obtain ⟨g, -, -, rfl, hd, hc⟩ := hsound.engine.agrees.of_live hl
  exact (hc.coherent (hd.ne_merged hstate)).backs replaced x

/-- So it is for the segments and the attribute store of any state of a run, where look-ups after a
batch find its values and leave those of all other attributes as they were. -/
theorem resolves_along (updates : List Update) (hdistinct : (updates.map Update.id).Nodup) :
    (∀ e store, Entry.Resolves e store updates) ∧
    ∀ config logged clock moves,
      let s := ((Traffic.start config logged clock).run moves).engine
      ∀ id e, s.live? id = some e → e.state = .active ∨ e.state = .sealed →
        ∀ values, (e.evaluate s.store updates).2 = .ok values → ∀ maxCached cache,
          (∀ u ∈ updates, e.lookUpAfter s.store updates maxCached values cache u.id =
            [(u.id, u.outcome (e.committed s.store u.id))]) ∧
          ∀ x, x ∉ updates.map Update.id →
            e.lookUpAfter s.store updates maxCached values cache x =
              [(x, e.committed s.store x)] := by
  refine ⟨fun e store => e.resolves store updates hdistinct, ?_⟩
  intro config logged clock moves s id e hl hstate values hvalues maxCached cache
  have hbacks := backs_run config logged clock moves id e hl hstate (updates.map Update.id)
  have hresolves := e.resolves s.store updates hdistinct
  exact ⟨fun u hu => hresolves.replaces values hvalues maxCached cache u hu (hbacks u.id),
    fun x hx => hresolves.leaves values hvalues maxCached cache x hx (hbacks x)⟩

/-- A segment with a value in each tier, of which one is waiting to be removed from a store that
refuses. -/
def layered : Entry × AttributeStore :=
  let e := Entry.ofMetadata (.new 1 "layered")
  let tiers : AttributeTiers :=
    { cache := (AttributeCache.empty.set .eventCount 2).set ⟨1, 1⟩ 5
      unstored := (Table.empty.insert ⟨1, 1⟩ 5).insert ⟨1, 2⟩ nullValue
      epoch := 1 }
  let store := (AttributeStore.empty.put 1 [(⟨1, 2⟩, 6), (⟨1, 3⟩, 7)]).1
  ({ e with metadata := { e.metadata with attributes := tiers } }, { store with refusing := true })

/-- An update of each attribute of that segment. -/
def layeredBatch : List Update :=
  [⟨.eventCount, .accumulate, 1⟩, ⟨⟨1, 1⟩, .replaceIfGreater, 6⟩, ⟨⟨1, 2⟩, .setOnce, 8⟩,
    ⟨⟨1, 3⟩, .replaceIfEquals 7, nullValue⟩]

/-- The batch over these tiers, and over those of a run in which the store refuses. -/
theorem resolves_along_layered : (layeredBatch.map Update.id).Nodup ∧
    layered.1.Resolves layered.2 layeredBatch ∧
    (layered.1.evaluate layered.2 layeredBatch).2 =
      .ok [(.eventCount, 3), (⟨1, 1⟩, 6), (⟨1, 2⟩, 8), (⟨1, 3⟩, nullValue)] ∧
    let s := ((Traffic.start .standard true 0).run
      [.submit (.create "a" [.replace ⟨1, 1⟩ 5, .replace ⟨1, 3⟩ 7, .replace ⟨1, 4⟩ 9]) 1,
        .advance 0, .refuse true]).engine
    ∃ e values, s.live? 1 = some e ∧ (e.evaluate s.store layeredBatch).2 = .ok values ∧
      e.lookUpAfter s.store layeredBatch 0 values true ⟨1, 1⟩ = [(⟨1, 1⟩, 6)] ∧
      e.lookUpAfter s.store layeredBatch 0 values true ⟨1, 4⟩ = [(⟨1, 4⟩, 9)] := by
  refine ⟨by decide, (resolves_along layeredBatch (by decide)).1 layered.1 layered.2,
    by decide +kernel, ?_⟩
  intro s
  have hactive : (s.live? 1).map Entry.state = some .active := by decide +kernel
  have hvalues : (s.live? 1).map (fun e => (e.evaluate s.store layeredBatch).2) =
      some (.ok [(.eventCount, 1), (⟨1, 1⟩, 6), (⟨1, 2⟩, 8), (⟨1, 3⟩, nullValue)]) := by
    decide +kernel
  have hbefore : (s.live? 1).map
      (fun e => (e.committed s.store ⟨1, 1⟩, e.committed s.store ⟨1, 4⟩)) = some (5, 9) := by
    decide +kernel
  obtain ⟨e, he, hstate⟩ := Option.map_eq_some_iff.mp hactive
  rw [he, Option.map_some, Option.some.injEq] at hvalues hbefore
  obtain ⟨hold, hother⟩ := Prod.mk.inj hbefore
  obtain ⟨hnew, hleft⟩ := (resolves_along layeredBatch (by decide)).2 .standard true 0 _ 1 e he
    (Or.inl hstate) _ hvalues 0 true
  have hgreater := hnew ⟨⟨1, 1⟩, .replaceIfGreater, 6⟩ (by decide)
  rw [hold] at hgreater
  exact ⟨e, _, he, hvalues, hgreater, hother ▸ hleft ⟨1, 4⟩ (by decide)⟩

/-- A segment with a cached value, over a store in which that value was then replaced by another. -/
def outdated : Entry × AttributeStore :=
  let e := Entry.ofMetadata (.new 1 "outdated")
  let (tiers, store, _) := e.metadata.attributes.apply .empty e.id e.name 1 [(⟨0x5151, 1⟩, 5)]
  ({ e with metadata := { e.metadata with attributes := tiers } },
    (store.put e.id [(⟨0x5151, 1⟩, 7)]).1)

/-- When another attribute takes its place in the cache, the value in the store comes to light. -/
theorem lookUpAfter_outdated :
    ([Update.replace ⟨0x5151, 2⟩ 1].map Update.id).Nodup ∧
    ⟨0x5151, 1⟩ ∉ [Update.replace ⟨0x5151, 2⟩ 1].map Update.id ∧
    (outdated.1.evaluate outdated.2 [.replace ⟨0x5151, 2⟩ 1]).2 = .ok [(⟨0x5151, 2⟩, 1)] ∧
    (outdated.1.metadata.attributes.lookUp outdated.2 outdated.1.id outdated.1.name 1 false
      [⟨0x5151, 1⟩]).2 = [(⟨0x5151, 1⟩, 5)] ∧
    outdated.1.lookUpAfter outdated.2 [.replace ⟨0x5151, 2⟩ 1] 1 [(⟨0x5151, 2⟩, 1)] false
      ⟨0x5151, 1⟩ = [(⟨0x5151, 1⟩, 7)] := by
  refine ⟨by decide, by decide, by decide +kernel, by decide +kernel, ?_⟩
  simp only [lookUpAfter, AttributeTiers.lookUp_eq, AttributeTiers.apply, AttributeTiers.trim,
    AttributeCache.trim]
  rw [AttributeCache.byAge_of_pairwise (by decide +kernel)]
  decide +kernel

end Entry

end Segments
