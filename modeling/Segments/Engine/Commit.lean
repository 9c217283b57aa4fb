import Segments.Engine.Basic
import Segments.Engine.Reader

/-!
# Commits

A change of the store is made in three moves. `propose` decides from the state alone: it
refuses, finds that there is nothing to do, or gives the record to be written. The journal then
takes the record or fails. `enact` applies a record that the journal took, and cannot fail.
So nothing but the recency of cached attributes has changed when a change is refused.
-/

namespace Segments

/-- A change that is ready to be decided on, its segments found and its turns taken. -/
inductive Action where
  /-- Create a segment. -/
  | create (name : String) (updates : List Update)
  /-- Append, perhaps only at an expected length. -/
  | append (segment : SegmentId) (data : Bytes) (updates : List Update) (expected : Option Nat)
  /-- Change attributes. -/
  | update (name : String) (segment : SegmentId) (updates : List Update)
  /-- Make the length final. -/
  | sealing (name : String) (segment : SegmentId)
  /-- Raise the lowest readable offset. -/
  | truncate (name : String) (segment : SegmentId) (offset : Nat)
  /-- Remove a segment. -/
  | delete (name : String) (segment : SegmentId)
  /-- Move a sealed segment to the end of another. -/
  | merge (target source : SegmentId)
  deriving DecidableEq, Repr

/-- What an operation answers when it does not fail. -/
inductive Answer where
  /-- Nothing to say. -/
  | done
  /-- A length. -/
  | length (n : Nat)
  /-- The description of a segment. -/
  | properties (p : Properties)
  /-- Attribute values. -/
  | attributes (values : AttributeValues)
  /-- A read that has begun. -/
  | reader (r : Reader)
  deriving DecidableEq

/-- What is decided on a change. -/
inductive Verdict where
  /-- It is refused. -/
  | refuse (error : SegmentError)
  /-- There is nothing to do. -/
  | idle (answer : Answer)
  /-- The record is to be written and applied. -/
  | commit (record : Record) (answer : Answer)
  deriving DecidableEq

namespace Verdict

/-- The verdict that follows from a check. -/
def ofCheck {α : Type} (check : Except SegmentError α) (accept : α → Verdict) : Verdict :=
  match check with
  | .error e => refuse e
  | .ok a => accept a

end Verdict

namespace Engine

/-- The present value of an attribute of a segment. -/
def valueOf (s : Engine) (entry : Entry) (id : AttributeId) : AttributeValue :=
  entry.metadata.attributes.value s.store entry.id id

/-- The new attribute values that a batch gives a segment, unless an update does not apply. -/
def evaluate (s : Engine) (entry : Entry) (updates : List Update) :
    Except SegmentError AttributeValues :=
  match Batch.evaluate (s.valueOf entry) updates with
  | .error (id, refusal) => .error (.attributeUpdateFailed entry.name id refusal.message)
  | .ok values => .ok values

/-- How batches of updates are evaluated on segments. -/
structure Evaluation where
  /-- The new values, unless an update does not apply. -/
  values : Entry → List Update → Except SegmentError AttributeValues
  /-- The attributes that are looked at. -/
  consulted : Entry → List Update → List AttributeId

/-- The evaluation against the present values. -/
def evaluation (s : Engine) : Evaluation where
  values := s.evaluate
  consulted entry := Batch.consulted (s.valueOf entry)

/-- Whether a list of values names the creation time. -/
def namesCreationTime (values : AttributeValues) : Bool :=
  values.any fun v => v.1 == AttributeId.creationTime

/-- The first attribute values of a segment: unless given, the creation time is the present. -/
def withCreationTime (s : Engine) (values : AttributeValues) : AttributeValues :=
  if namesCreationTime values then values else values ++ [(.creationTime, s.clock)]

/-- Decides on the creation of a segment. -/
def proposeCreate (s : Engine) (how : Evaluation) (name : String) (updates : List Update) :
    Verdict :=
  if s.names.contains name then .refuse (.segmentExists name)
  else
    .ofCheck (how.values (.ofMetadata (.new s.nextId name)) updates) fun values =>
      .commit (.create s.nextId name (s.withCreationTime values)) .done

/-- Whether an append must be refused before its updates are looked at. -/
def checkAppend (entry : Entry) (expected : Option Nat) : Except SegmentError Unit :=
  match entry.state.requireWritable entry.name with
  | .error e => .error e
  | .ok () =>
    match expected with
    | some offset =>
      if offset = entry.metadata.length then .ok ()
      else .error (.badOffset entry.name offset (.length entry.metadata.length))
    | none => .ok ()

/-- Decides on an append. -/
def proposeAppend (how : Evaluation) (entry : Entry) (data : Bytes) (updates : List Update)
    (expected : Option Nat) : Verdict :=
  .ofCheck (checkAppend entry expected) fun () =>
    .ofCheck (how.values entry updates) fun values =>
      .commit (.append entry.id entry.metadata.length data values) .done

/-- Decides on a change of attributes. -/
def proposeUpdate (how : Evaluation) (name : String) (entry : Entry) (updates : List Update) :
    Verdict :=
  .ofCheck (entry.state.requireWritable name) fun () =>
    if updates.isEmpty then .idle .done
    else
      .ofCheck (how.values entry updates) fun values =>
        .commit (.updateAttributes entry.id values) .done

/-- Decides on a sealing; a sealed segment stays as it is. -/
def proposeSealing (name : String) (entry : Entry) : Verdict :=
  .ofCheck (entry.state.requireReadable name) fun () =>
    if entry.state = .sealed then .idle (.length entry.metadata.length)
    else .commit (.sealing entry.id entry.metadata.length) (.length entry.metadata.length)

/-- Decides on a truncation; the present offset is nothing to do. -/
def proposeTruncate (name : String) (entry : Entry) (offset : Nat) : Verdict :=
  let m := entry.metadata
  .ofCheck (m.state.requireReadable name) fun () =>
    if offset < m.truncationOffset ∨ m.length < offset then
      .refuse (.badOffset name offset (.truncation m.truncationOffset m.length))
    else if offset = m.truncationOffset then .idle .done
    else .commit (.truncate entry.id offset) .done

/-- Decides on a deletion: the name must still stand for the segment. -/
def proposeDelete (s : Engine) (name : String) (entry : Entry) : Verdict :=
  if s.names.get? name ≠ some entry.id ∨ entry.state = .deleted then
    .refuse (.segmentNotFound name)
  else .commit (.delete entry.id) .done

/-- Decides on a merge; the answer describes the source as merged. -/
def proposeMerge (target source : Entry) : Verdict :=
  .ofCheck (target.state.requireWritable target.name) fun () =>
    .ofCheck (source.state.requireReadable source.name) fun () =>
      if source.state = .sealed then
        .commit (.merge target.id source.id source.metadata.length target.metadata.length)
          (.properties { source.metadata.properties with sealed := true, merged := true })
      else .refuse (.segmentNotSealed source.name)

/-- The entry of a segment, deleted or not. -/
def entry (s : Engine) (id : SegmentId) : Entry := (s.entries.get? id).getD default

/-- Decides on a change, batches being evaluated in a certain way. -/
def proposeBy (s : Engine) (how : Evaluation) : Action → Verdict
  | .create name updates => s.proposeCreate how name updates
  | .append id data updates expected => proposeAppend how (s.entry id) data updates expected
  | .update name id updates => proposeUpdate how name (s.entry id) updates
  | .sealing name id => proposeSealing name (s.entry id)
  | .truncate name id offset => proposeTruncate name (s.entry id) offset
  | .delete name id => s.proposeDelete name (s.entry id)
  | .merge target source => proposeMerge (s.entry target) (s.entry source)

/-- Decides on a change. -/
def propose (s : Engine) (action : Action) : Verdict := s.proposeBy s.evaluation action

/-- Marks attributes of a segment as just used. -/
def touch (s : Engine) (id : SegmentId) (ids : List AttributeId) : Engine :=
  s.modifyEntry id fun e =>
    { e with metadata := { e.metadata with attributes := e.metadata.attributes.touchAll ids } }

/-- Marks the attributes that a decision looked at as just used. -/
def touchConsultedBy (s : Engine) (how : Evaluation) : Action → Engine
  | .append id _ updates expected =>
    match checkAppend (s.entry id) expected with
    | .ok () => s.touch id (how.consulted (s.entry id) updates)
    | .error _ => s
  | .update name id updates =>
    match (s.entry id).state.requireWritable name with
    | .ok () => s.touch id (how.consulted (s.entry id) updates)
    | .error _ => s
  | _ => s

/-- Marks the attributes that a decision against the present values looked at as just used. -/
def touchConsulted (s : Engine) (action : Action) : Engine :=
  s.touchConsultedBy s.evaluation action

/-- Applies committed attribute values to a segment. -/
def applyAttributes (s : Engine) (id : SegmentId) (values : AttributeValues) :
    Engine × List Event :=
  let entry := s.entry id
  let (attributes, store, events) :=
    entry.metadata.attributes.apply s.store id entry.name s.config.maxCachedAttributes values
  ({ s.modifyEntry id fun e => { e with metadata := { e.metadata with attributes } } with store },
    events)

/-- Erases the stored attribute values of a segment that is gone. -/
def dropStored (s : Engine) (id : SegmentId) (name : String) : Engine × List Event :=
  match s.store.removeSegment id with
  | (store, .ok ()) => ({ s with store }, [])
  | (store, .error e) => ({ s with store },
      [⟨.warn, "failed to drop stored attributes",
        [("segment", .text name), ("id", .text id.text), ("error", .text e.message)]⟩])

/-- An entry whose segment has ended in a stage of life: no attributes and no bytes in memory. -/
def ended (e : Entry) (state : SegmentState) (mergedInto : Option SegmentId) : Entry :=
  { e with
    metadata := { e.metadata with
      state, mergedInto, attributes := e.metadata.attributes.release }
    data := [] }

/-- Applies a record that the journal took; the name is the one that the caller used. -/
def enact (s : Engine) (name : String) : Record → Engine × List Event
  | .create id segmentName values =>
    let m := { Metadata.new id segmentName with state := .active }
    let (attributes, store, events) :=
      m.attributes.apply s.store id segmentName s.config.maxCachedAttributes values
    ({ s with
        entries := s.entries.insert id (.ofMetadata { m with attributes })
        names := s.names.insert segmentName id
        nextId := id + 1
        store }, events)
  | .append id _ data values =>
    let s := s.modifyEntry id fun e =>
      { e with
        data := e.data ++ data
        metadata := { e.metadata with length := e.metadata.length + data.length } }
    let (s, events) := s.applyAttributes id values
    (s.modifyEntry id Entry.publish, events)
  | .updateAttributes id values => s.applyAttributes id values
  | .sealing id _ =>
    (s.modifyEntry id fun e =>
      { e with metadata := { e.metadata with state := .sealed } }.publish, [])
  | .truncate id offset =>
    (s.modifyEntry id fun e =>
      { e with metadata := { e.metadata with truncationOffset := offset } }.publish, [])
  | .delete id =>
    let s := s.modifyEntry id fun e => (ended e .deleted e.metadata.mergedInto).publish
    { s with names := s.names.erase name }.dropStored id name
  | .merge target source sourceLength _ =>
    let moved := (s.entry source).data.take sourceLength
    let s := s.modifyEntry target fun e =>
      { e with
        data := e.data ++ moved
        metadata := { e.metadata with length := e.metadata.length + sourceLength } }.publish
    let s := s.modifyEntry source fun e => (ended e .merged (some target)).publish
    s.dropStored source (s.entry source).name

/-- The report of a change that was committed. -/
def report (after : Engine) (action : Action) (record : Record) : List Event :=
  match action, record with
  | .create name _, .create id _ _ =>
    [⟨.info, "segment created", [("segment", .text name), ("id", .text id.text)]⟩]
  | .append _ _ _ expected, .append id offset data values =>
    [⟨.debug, "append committed",
      [("segment", .text (after.entry id).name), ("offset", .number offset),
        ("len", .number data.length), ("attributes", .number values.length),
        ("conditional", .flag expected.isSome)]⟩]
  | .update name _ _, .updateAttributes _ values =>
    [⟨.debug, "attributes updated",
      [("segment", .text name), ("attributes", .number values.length)]⟩]
  | .sealing name _, .sealing _ length =>
    [⟨.info, "segment sealed", [("segment", .text name), ("length", .number length)]⟩]
  | .truncate name _ _, .truncate _ offset =>
    [⟨.info, "segment truncated", [("segment", .text name), ("offset", .number offset)]⟩]
  | .delete name _, .delete id =>
    [⟨.info, "segment deleted", [("segment", .text name), ("id", .text id.text)]⟩]
  | .merge .., .merge target source sourceLength _ =>
    [⟨.info, "segment merged",
      [("target", .text (after.entry target).name), ("source", .text (after.entry source).name),
        ("source_length", .number sourceLength),
        ("target_length", .number (after.entry target).metadata.length)]⟩]
  | _, _ => []

end Engine

namespace Action

/-- The name that the caller used for the segment that ends with a change. -/
def callerName : Action → String
  | delete name _ => name
  | _ => ""

end Action

namespace Engine

/-- Makes a change: decides, writes the record, and applies it. -/
def executeBy (s : Engine) (how : Evaluation) (action : Action) :
    Engine × List Event × Except SegmentError Answer :=
  let verdict := s.proposeBy how action
  let s := s.touchConsultedBy how action
  match verdict with
  | .refuse e => (s, [], .error e)
  | .idle answer => (s, [], .ok answer)
  | .commit record answer =>
    match s.log.append record with
    | (log, .error e) => ({ s with log }, [], .error e)
    | (log, .ok _) =>
      let (s, events) := { s with log }.enact action.callerName record
      (s, events ++ s.report action record, .ok answer)

/-- Makes a change, batches being evaluated against the present values. -/
def execute (s : Engine) (action : Action) : Engine × List Event × Except SegmentError Answer :=
  s.executeBy s.evaluation action

/-- Against the present values the parts of a change are those of its decision. -/
theorem execute_eq (s : Engine) (action : Action) :
    s.execute action =
      match s.propose action with
      | .refuse e => (s.touchConsulted action, [], .error e)
      | .idle answer => (s.touchConsulted action, [], .ok answer)
      | .commit record answer =>
        match (s.touchConsulted action).log.append record with
        | (log, .error e) => ({ s.touchConsulted action with log }, [], .error e)
        | (log, .ok _) =>
          let (after, events) :=
            ({ s.touchConsulted action with log } : Engine).enact action.callerName record
          (after, events ++ after.report action record, .ok answer) := rfl

end Engine

end Segments
