import Segments.Cbor.Item
import Segments.Error
import Segments.Journal.Record

/-!
# Record payloads

The payload of a record is a CBOR map of one entry: the key names the kind, the value maps the
field names to the field values. `Record.encode` writes the fields in their order, every head
in its shortest form. `Record.decode` takes more than that: fields in any order, unknown fields,
tags, open lengths, the bare list of the field values, and anything after the value.
-/

namespace Segments

/-- The type of a field of a record. -/
inductive FieldType where
  /-- A 64-bit number. -/
  | number
  /-- A text. -/
  | text
  /-- A byte string. -/
  | bytes
  /-- A list of attribute values. -/
  | attributes
  deriving DecidableEq, Repr

/-- The value of a field of a record. -/
inductive FieldValue where
  /-- A 64-bit number. -/
  | number (n : Nat)
  /-- A text. -/
  | text (s : String)
  /-- A byte string. -/
  | bytes (b : Bytes)
  /-- A list of attribute values. -/
  | attributes (values : AttributeValues)
  deriving DecidableEq, Repr

namespace RecordKind

/-- The key that names a kind in a payload. -/
def key : RecordKind → String
  | create => "CreateSegment"
  | append => "Append"
  | updateAttributes => "UpdateAttributes"
  | sealing => "Seal"
  | merge => "Merge"
  | truncate => "Truncate"
  | delete => "Delete"

/-- The names and types of the fields of a kind, in order. -/
def fields : RecordKind → List (String × FieldType)
  | create => [("segment_id", .number), ("name", .text), ("attributes", .attributes)]
  | append => [("segment_id", .number), ("offset", .number), ("data", .bytes),
      ("attributes", .attributes)]
  | updateAttributes => [("segment_id", .number), ("attributes", .attributes)]
  | sealing => [("segment_id", .number), ("length", .number)]
  | merge => [("target_id", .number), ("source_id", .number), ("source_length", .number),
      ("target_offset", .number)]
  | truncate => [("segment_id", .number), ("offset", .number)]
  | delete => [("segment_id", .number)]

/-- The record of a kind with the given field values in order. -/
def build : RecordKind → List FieldValue → Option Record
  | create, [.number s, .text name, .attributes values] => some (.create s name values)
  | append, [.number s, .number offset, .bytes data, .attributes values] =>
    some (.append s offset data values)
  | updateAttributes, [.number s, .attributes values] => some (.updateAttributes s values)
  | sealing, [.number s, .number length] => some (.sealing s length)
  | merge, [.number target, .number source, .number sourceLength, .number targetOffset] =>
    some (.merge target source sourceLength targetOffset)
  | truncate, [.number s, .number offset] => some (.truncate s offset)
  | delete, [.number s] => some (.delete s)
  | _, _ => none

end RecordKind

namespace FieldValue

/-- Whether every number of a value can be written in 64 bits. -/
def fits : FieldValue → Bool
  | number n => decide (n < Bytes.capacity 8)
  | text s => decide (s.utf8ByteSize < Bytes.capacity 8)
  | bytes b => decide (b.length < Bytes.capacity 8)
  | attributes values => decide (values.length < Bytes.capacity 8)

/-- An attribute value: the bytes of the identifier and the number, as a pair. -/
def encodeAttribute (a : AttributeId × AttributeValue) : Bytes :=
  Cbor.head 4 2 ++ Cbor.head 2 16 ++ a.1.toBytes ++ Cbor.integer a.2.toInt

/-- The item of a field value. -/
def encode : FieldValue → Bytes
  | number n => Cbor.head 0 n
  | text s => Cbor.head 3 s.utf8ByteSize ++ Bytes.ofText s
  | bytes b => Cbor.head 2 b.length ++ b
  | attributes values => Cbor.head 4 values.length ++ values.flatMap encodeAttribute

/-- Past tags, a text. -/
def decodeText (b : Bytes) : Option (String × Bytes) :=
  match Cbor.pullPast (fun _ => false) b with
  | some (.text len, rest) =>
    match Cbor.stringBody .text len rest with
    | some (content, rest') => (Bytes.text? content).map (·, rest')
    | none => none
  | _ => none

/-- One byte of a byte string that is given as a list of numbers. -/
def decodeByte (read : Bytes) (b : Bytes) : Option (Bytes × Bytes) :=
  (Cbor.pullNatural 256 b).map fun (n, rest) => (UInt8.ofNat n :: read, rest)

/-- Past tags, a byte string or a list of numbers below 256. -/
def decodeBytes (b : Bytes) : Option (Bytes × Bytes) :=
  match Cbor.pullPast (fun _ => false) b with
  | some (.bytes len, rest) => Cbor.stringBody .bytes len rest
  | some (.array len, rest) =>
    (Cbor.repeatFor decodeByte len [] rest).map fun (read, rest') => (read.reverse, rest')
  | _ => none

/-- Past tags, the 16 bytes of an identifier as one byte string of known length. -/
def decodeId (b : Bytes) : Option (AttributeId × Bytes) :=
  match Cbor.pullPast (fun _ => false) b with
  | some (.bytes (some 16), rest) =>
    match Bytes.takeExactly 16 rest with
    | some (front, rest') => (AttributeId.ofBytes? front).map (·, rest')
    | none => none
  | _ => none

/-- A pair of identifier and value, put in front of the pairs read before it. Items of the
list beyond the second are left unread. -/
def decodeAttribute (read : AttributeValues) (b : Bytes) : Option (AttributeValues × Bytes) :=
  match Cbor.pullPast (fun _ => false) b with
  | some (.array len, rest) =>
    if len.all (2 ≤ ·) then
      match decodeId rest with
      | some (id, rest') =>
        (Cbor.pullBounded Int64.minValue.toInt Int64.maxValue.toInt rest').map
          fun (n, rest'') => ((id, Int64.ofInt n) :: read, rest'')
      | none => none
    else none
  | _ => none

/-- Past tags, a list of attribute values; an empty byte string is an empty list. -/
def decodeAttributes (b : Bytes) : Option (AttributeValues × Bytes) :=
  match Cbor.pullPast (fun _ => false) b with
  | some (.array len, rest) =>
    (Cbor.repeatFor decodeAttribute len [] rest).map fun (read, rest') => (read.reverse, rest')
  | some (.bytes len, rest) =>
    match Cbor.stringBody .bytes len rest with
    | some ([], rest') => some ([], rest')
    | _ => none
  | _ => none

/-- A field value of a type. -/
def decode : FieldType → Bytes → Option (FieldValue × Bytes)
  | .number, b => (Cbor.pullNatural (Bytes.capacity 8) b).map fun (n, rest) => (number n, rest)
  | .text, b => (decodeText b).map fun (s, rest) => (text s, rest)
  | .bytes, b => (decodeBytes b).map fun (data, rest) => (bytes data, rest)
  | .attributes, b => (decodeAttributes b).map fun (values, rest) => (attributes values, rest)

end FieldValue

namespace Record

/-- The field values of a record in order. -/
def values : Record → List FieldValue
  | create s name attributes => [.number s, .text name, .attributes attributes]
  | append s offset data attributes =>
    [.number s, .number offset, .bytes data, .attributes attributes]
  | updateAttributes s attributes => [.number s, .attributes attributes]
  | sealing s length => [.number s, .number length]
  | merge target source sourceLength targetOffset =>
    [.number target, .number source, .number sourceLength, .number targetOffset]
  | truncate s offset => [.number s, .number offset]
  | delete s => [.number s]

/-- Whether every number of a record can be written in 64 bits. -/
def fits (r : Record) : Bool := r.values.all FieldValue.fits

/-- The fields of a record as pairs of key and value. -/
def encodeFields (fields : List (String × FieldType)) (values : List FieldValue) : Bytes :=
  (fields.zip values).flatMap fun (f, v) => (FieldValue.text f.1).encode ++ v.encode

/-- The payload of a record whose numbers can be written. -/
def encodeFitting (r : Record) : Bytes :=
  Cbor.head 5 1 ++ (FieldValue.text r.kind.key).encode ++ Cbor.head 5 r.kind.fields.length
    ++ encodeFields r.kind.fields r.values

/-- The payload of a record. -/
def encode (r : Record) : Except SegmentError Bytes :=
  if r.fits then .ok r.encodeFitting else .error (.codec ("failed to encode " ++ r.kind.name))

/-- The longest key that is looked at. -/
def maxKeyLength : Nat := 4096

/-- How deep the items of unknown fields may be nested. -/
def maxIgnoredDepth : Nat := 254

/-- Past tags, a key: a text or byte string of known length. -/
def decodeKey (b : Bytes) : Option (Bytes × Bytes) :=
  match Cbor.pullPast (fun _ => false) b with
  | some (.text (some len), rest) =>
    if len ≤ maxKeyLength then Cbor.StringForm.text.piece len rest else none
  | some (.bytes (some len), rest) =>
    if len ≤ maxKeyLength then Cbor.StringForm.bytes.piece len rest else none
  | _ => none

/-- One member of a map of fields: a known field that was not met before, or anything. -/
def decodeMember (fields : List (String × FieldType)) (found : List (String × FieldValue))
    (b : Bytes) : Option (List (String × FieldValue) × Bytes) :=
  match decodeKey b with
  | none => none
  | some (key, rest) =>
    match fields.find? fun f => Bytes.ofText f.1 == key with
    | none => (Cbor.skip maxIgnoredDepth rest).map (found, ·)
    | some (name, type) =>
      if (found.lookup name).isSome then none
      else (FieldValue.decode type rest).map fun (value, rest') => ((name, value) :: found, rest')

/-- The field values of a map, in the order of the fields. -/
def decodeMap (fields : List (String × FieldType)) (len : Option Nat) (b : Bytes) :
    Option (List FieldValue) :=
  match Cbor.repeatFor (decodeMember fields) len [] b with
  | some (found, _) => fields.mapM fun f => found.lookup f.1
  | none => none

/-- The field values of a bare list; what comes after the last one is not looked at. -/
def decodeList : List (String × FieldType) → Bytes → Option (List FieldValue)
  | [], _ => some []
  | (_, type) :: fields, b =>
    match FieldValue.decode type b with
    | some (value, rest) => (decodeList fields rest).map (value :: ·)
    | none => none

/-- The record behind the key of its kind. -/
def decodeBody (kind : RecordKind) (b : Bytes) : Option Record :=
  match Cbor.pull b with
  | some (.map len, rest) => (decodeMap kind.fields len rest).bind kind.build
  | some (.array len, rest) =>
    if len.all (kind.fields.length ≤ ·) then (decodeList kind.fields rest).bind kind.build
    else none
  | _ => none

/-- A record of any kind: the key of the kind, then the fields. -/
def decodeKeyed (b : Bytes) : Option Record :=
  match decodeKey b with
  | some (key, rest) =>
    match RecordKind.all.find? fun k => Bytes.ofText k.key == key with
    | some kind => decodeBody kind rest
    | none => none
  | none => none

/-- A record of any kind at the start of the bytes. -/
def decodeAny (b : Bytes) : Option Record :=
  match Cbor.pull b with
  | some (.text _, _) => decodeKeyed b
  | _ =>
    match Cbor.pullPast (fun _ => false) b with
    | some (.map (some 1), rest) => decodeKeyed rest
    | some (.text len, rest) => decodeKeyed (retext len rest)
    | _ => none
where
  /-- A text whose head was read past tags, with its head again. -/
  retext (len : Option Nat) (rest : Bytes) : Bytes :=
    match len with
    | some n => Cbor.head 3 n ++ rest
    | none => 0x7f :: rest

/-- The record of a payload, which must be of the kind that its frame announces. -/
def decode (kind : RecordKind) (payload : Bytes) : Except SegmentError Record :=
  match decodeAny payload with
  | none => .error (.codec ("failed to decode " ++ kind.name))
  | some r =>
    if r.kind = kind then .ok r
    else .error (.journalCorruption
      ("header says " ++ kind.name ++ " but payload is " ++ r.kind.name))

end Record

end Segments
