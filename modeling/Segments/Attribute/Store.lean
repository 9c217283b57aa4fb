import Segments.Attribute.IndexLog

/-!
# The attribute store

Where extended attribute values live when they are not in memory: an index of its own, or an
index with its log. A store can be made to refuse writes; look-ups always work, and a refused
write changes nothing.
-/

namespace Segments

/-- What an attribute store keeps its values in. -/
inductive AttributeKeeper where
  /-- An index that is lost with the process. -/
  | volatile (index : AttributeIndex)
  /-- An index with its log. -/
  | logged (log : IndexLog)
  deriving DecidableEq

/-- The attribute store of a segment store. -/
structure AttributeStore where
  /-- What the values are kept in. -/
  keeper : AttributeKeeper
  /-- Whether writes are refused. -/
  refusing : Bool
  deriving DecidableEq

namespace AttributeStore

/-- A store over an index that is lost with the process. -/
def ofIndex (index : AttributeIndex) : AttributeStore := ⟨.volatile index, false⟩

/-- A store over an index with its log. -/
def ofLog (log : IndexLog) : AttributeStore := ⟨.logged log, false⟩

/-- The store without values. -/
def empty : AttributeStore := ofIndex .empty

instance : Inhabited AttributeStore := ⟨empty⟩

/-- The values that are stored. -/
def index (s : AttributeStore) : AttributeIndex :=
  match s.keeper with
  | .volatile index => index
  | .logged log => log.index

/-- The stored value of an attribute of a segment. -/
def get? (s : AttributeStore) (segment : SegmentId) (id : AttributeId) : Option AttributeValue :=
  s.index.get? segment id

/-- The stored ones among some attributes of a segment. -/
def lookup (s : AttributeStore) (segment : SegmentId) (ids : List AttributeId) :
    AttributeValues :=
  s.index.lookup segment ids

/-- The error of a refused write. -/
def refusal : SegmentError := .internal "disk full"

/-- Stores values of a segment. -/
def put (s : AttributeStore) (segment : SegmentId) (values : AttributeValues) :
    AttributeStore × Except SegmentError Unit :=
  if s.refusing then (s, .error refusal)
  else
    match s.keeper with
    | .volatile index => ({ s with keeper := .volatile (index.put segment values) }, .ok ())
    | .logged log => ({ s with keeper := .logged (log.put segment values) }, .ok ())

/-- Erases all values of a segment. -/
def removeSegment (s : AttributeStore) (segment : SegmentId) :
    AttributeStore × Except SegmentError Unit :=
  if s.refusing then (s, .error refusal)
  else
    match s.keeper with
    | .volatile index => ({ s with keeper := .volatile (index.removeSegment segment) }, .ok ())
    | .logged log => ({ s with keeper := .logged (log.removeSegment segment) }, .ok ())

/-- Makes earlier writes durable. -/
def flush (s : AttributeStore) : Except SegmentError Unit :=
  if s.refusing then .error refusal else .ok ()

end AttributeStore

end Segments
