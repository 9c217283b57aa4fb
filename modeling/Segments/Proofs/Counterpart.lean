import Segments.Engine.Contents
import Segments.Proofs.IndexLog

/-!
# Attribute stores with a log and without

An attribute store with a log and one without take the same calls. Every call leaves a log with the
changes that made its index, which opens to the index again, whole or cut anywhere. So the two stores
have the same values after any calls, although the one was closed and opened again in between.
-/

namespace Segments

/-- A call of an attribute store. -/
inductive StoreCall where
  /-- Values of a segment are stored. -/
  | put (segment : SegmentId) (values : AttributeValues)
  /-- The values of a segment are erased. -/
  | removeSegment (segment : SegmentId)
  /-- The store is closed and opened again over what is left of it. -/
  | reopen

namespace StoreCall

/-- Whether the segment of a call has a number of 64 bits. -/
def Numbered : StoreCall → Prop
  | put segment _ | removeSegment segment => segment < Bytes.capacity 8
  | reopen => True

/-- Whether a call changes the values of a store. -/
def writes : StoreCall → Bool
  | put .. | removeSegment _ => true
  | reopen => false

/-- The store after a call, unless that fails. -/
def make (s : AttributeStore) : StoreCall → Except SegmentError AttributeStore
  | put segment values => (s.put segment values).2.map fun () => (s.put segment values).1
  | removeSegment segment => (s.removeSegment segment).2.map fun () => (s.removeSegment segment).1
  | reopen => s.contents.openStore.map Prod.fst

/-- The store after some calls, unless one of them fails. -/
def makeAll (s : AttributeStore) : List StoreCall → Except SegmentError AttributeStore
  | [] => .ok s
  | call :: calls =>
    match call.make s with
    | .error e => .error e
    | .ok s' => makeAll s' calls

end StoreCall

namespace StoreCall

variable {l : IndexLog} {changes : List IndexChange}

/-- A write does to a store with a log what it does to one without. -/
theorem make_eq (h : l.Logs changes) {call : StoreCall} (hc : call.Numbered)
    (hw : call.writes = true) :
    ∃ l' more, call.make (.ofLog l) = .ok (.ofLog l') ∧
      call.make (.ofIndex l.index) = .ok (.ofIndex l'.index) ∧ l'.Logs (changes ++ more) := by
  cases call with
  | put segment values =>
    obtain ⟨more, hlogs⟩ := h.put hc values
    refine ⟨_, more, rfl, ?_, hlogs⟩
    rw [IndexLog.index_put]
    rfl
  | removeSegment segment =>
    obtain ⟨⟨more, hlogs⟩, hindex⟩ := h.removeSegment hc
    refine ⟨_, more, rfl, ?_, hlogs⟩
    rw [hindex]
    rfl
  | reopen => cases hw

/-- A store with a log is the same when it is opened again. -/
theorem make_reopen (h : l.Logs changes) : reopen.make (.ofLog l) = .ok (.ofLog l) := by
  obtain ⟨events, hopened, -⟩ := h.openLog
  simp only [make, AttributeStore.contents, AttributeStore.ofLog, AttributeContents.openStore,
    hopened]
  rfl

/-- Any calls do to a store with a log what the writes among them do to one without. -/
theorem makeAll_eq (h : l.Logs changes) {calls : List StoreCall} (hc : ∀ c ∈ calls, c.Numbered) :
    ∃ l' more, makeAll (.ofLog l) calls = .ok (.ofLog l') ∧
      makeAll (.ofIndex l.index) (calls.filter writes) = .ok (.ofIndex l'.index) ∧
      l'.Logs (changes ++ more) := by
  induction calls generalizing l changes with
  | nil => exact ⟨l, [], rfl, rfl, by rwa [List.append_nil]⟩
  | cons call calls ih =>
    have hrest : ∀ c ∈ calls, c.Numbered := fun c hin => hc c (List.mem_cons_of_mem _ hin)
    cases hw : call.writes with
    | true =>
      obtain ⟨l₁, more₁, hlog₁, hindex₁, hlogs₁⟩ := make_eq h (hc call List.mem_cons_self) hw
      obtain ⟨l₂, more₂, hlog₂, hindex₂, hlogs₂⟩ := ih hlogs₁ hrest
      refine ⟨l₂, more₁ ++ more₂, ?_, ?_, by rwa [← List.append_assoc]⟩
      · rw [makeAll, hlog₁]
        exact hlog₂
      · rw [List.filter_cons_of_pos hw, makeAll, hindex₁]
        exact hindex₂
    | false =>
      obtain ⟨l₂, more₂, hlog₂, hindex₂, hlogs₂⟩ := ih h hrest
      have hreopen : call = reopen := by
        cases call with
        | reopen => rfl
        | _ => cases hw
      refine ⟨l₂, more₂, ?_, ?_, hlogs₂⟩
      · rw [makeAll, hreopen, make_reopen h]
        exact hlog₂
      · rwa [List.filter_cons_of_neg (by rw [hw]; exact Bool.false_ne_true)]

/-- A store with a log that is closed and opened again in between has the same values as one without
that takes the same writes, and neither fails. Wherever its log is cut, it opens to the index of the
whole changes that are left, and the log is cut behind them; from there on, and when it is opened once
more, it has the values of a store without a log that goes on from that index. -/
theorem makeAll_agree (calls : List StoreCall) (hc : ∀ c ∈ calls, c.Numbered) :
    ∃ l changes m, makeAll (.ofLog .empty) calls = .ok (.ofLog l) ∧
      makeAll (.ofIndex .empty) (calls.filter writes) = .ok m ∧
      (∀ segment ids, (AttributeStore.ofLog l).lookup segment ids = m.lookup segment ids) ∧
      IndexChange.decodeAll l.log = .ok changes ∧
      ∀ n, ∃ l' events, IndexLog.openLog (l.log.take n) = .ok (l', events) ∧
        l'.index = (changes.take (n / IndexChange.size)).foldl IndexChange.apply .empty ∧
        l'.log = l.log.take (IndexChange.size * (n / IndexChange.size)) ∧
        ∀ later : List StoreCall, (∀ c ∈ later, c.Numbered) →
          ∃ p m', makeAll (.ofLog l') (later ++ [.reopen]) = .ok p ∧
            makeAll (.ofIndex l'.index) (later.filter writes) = .ok m' ∧
            ∀ segment ids, p.lookup segment ids = m'.lookup segment ids := by
  obtain ⟨l, changes, hlog, hindex, hlogs⟩ := makeAll_eq IndexLog.logs_empty hc
  rw [List.nil_append] at hlogs
  refine ⟨l, changes, _, hlog, hindex, fun segment ids => rfl, hlogs.decodes, fun n => ?_⟩
  obtain ⟨l', events, hopened, hlogs', hcut⟩ := hlogs.openLog_take n
  refine ⟨l', events, hopened, hlogs'.index, hcut, fun later hlater => ?_⟩
  have hnumbered : ∀ c ∈ later ++ [.reopen], c.Numbered :=
    List.forall_mem_append.mpr ⟨hlater, List.forall_mem_singleton.mpr trivial⟩
  obtain ⟨l₁, more, hlog₁, hindex₁, -⟩ := makeAll_eq hlogs' hnumbered
  have hwrites : (later ++ [reopen]).filter writes = later.filter writes := by
    rw [List.filter_append]
    exact List.append_nil _
  rw [hwrites] at hindex₁
  exact ⟨_, _, hlog₁, hindex₁, fun segment ids => rfl⟩

/-- A value is stored and erased, a segment is erased that has values, and one that has none. -/
def erasures : List StoreCall :=
  [.put 3 [(⟨9, 1⟩, 11), (⟨9, 2⟩, 22), (⟨9, 1⟩, 12)], .put 3 [(⟨9, 2⟩, nullValue)], .reopen,
    .put 4 [(⟨9, 1⟩, 5)], .removeSegment 4, .removeSegment 7, .reopen]

theorem makeAll_agree_of_erasures : (∀ c ∈ erasures, c.Numbered) ∧
    ∃ l, makeAll (.ofLog .empty) erasures = .ok (.ofLog l) ∧
      (AttributeStore.ofLog l).lookup 3 [⟨9, 1⟩, ⟨9, 2⟩] = [(⟨9, 1⟩, 12)] ∧
      (AttributeStore.ofLog l).lookup 4 [⟨9, 1⟩] = [] := by
  have hnumbered : ∀ c ∈ erasures, c.Numbered := by
    simp [erasures, Numbered, Bytes.capacity]
  refine ⟨hnumbered, ?_⟩
  obtain ⟨l, changes, m, hlog, hindex, hsame, -⟩ := makeAll_agree erasures hnumbered
  obtain rfl : _ = m := Except.ok.inj hindex
  exact ⟨l, hlog, (hsame _ _).trans (by decide), (hsame _ _).trans (by decide)⟩

end StoreCall

end Segments
