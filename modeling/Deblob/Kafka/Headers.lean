import Deblob.Core.Identity

/-!
# Header hygiene of the relay

Inbound `deblob-*` headers are stripped before a record is produced again, and the relay then
appends its own schema tag, origin and, for quarantined records, reason code.
-/

namespace Deblob.Kafka

open Core

structure Header where
  key : String
  value : Option Bytes
deriving DecidableEq

abbrev Headers := List Header

def reservedPrefix : String := "deblob-"
def schemaIdHeader : String := "deblob-schema-id"
def originHeader : String := "deblob-origin"
def quarantineReasonHeader : String := "deblob-quarantine-reason"

/-- The comparison ignores ASCII case; a key whose leading bytes are not ASCII never matches. -/
def isReserved (key : String) : Bool :=
  (key.toList.take reservedPrefix.length).map Char.toLower == reservedPrefix.toList

/-- Every match goes, not just the first: the wire format allows duplicate header keys. -/
def stripReserved (headers : Option Headers) : Headers :=
  (headers.getD []).filter fun header ↦ !isReserved header.key

def originValue (cursor : SourceCursor) : String :=
  cursor.topic ++ "/" ++ toString cursor.partition ++ "/" ++ toString cursor.offset

def quarantineReasonValue : QuarantineReason → String
  | .duplicateKey => "duplicate_key"
  | .nonFiniteNumber => "non_finite_number"
  | .depthExceeded => "depth_exceeded"
  | .sizeExceeded => "size_exceeded"
  | .fieldCountExceeded => "field_count_exceeded"
  | .keyLengthExceeded => "key_length_exceeded"
  | .parseError => "parse_error"
  | .utf8Error => "utf8_error"

/-- Append the tag and the origin. Nothing is removed here; callers strip first. -/
def withTag (headers : Headers) (schemaRef : SchemaRef) (cursor : SourceCursor) : Headers :=
  headers ++ [⟨schemaIdHeader, some (utf8 schemaRef.headerValue)⟩,
    ⟨originHeader, some (utf8 (originValue cursor))⟩]

def withQuarantineReason (headers : Headers) (reason : QuarantineReason) : Headers :=
  headers ++ [⟨quarantineReasonHeader, some (utf8 (quarantineReasonValue reason))⟩]

theorem isReserved_eq_false_of_mem_stripReserved {headers : Option Headers} {header : Header}
    (hmem : header ∈ stripReserved headers) : isReserved header.key = false := by
  simpa using (List.mem_filter.mp hmem).2

theorem origin_mem_withTag (headers : Headers) (schemaRef : SchemaRef) (cursor : SourceCursor) :
    ⟨originHeader, some (utf8 (originValue cursor))⟩ ∈ withTag headers schemaRef cursor := by
  simp [withTag]

theorem mem_withQuarantineReason {headers : Headers} {header : Header} (hmem : header ∈ headers)
    (reason : QuarantineReason) : header ∈ withQuarantineReason headers reason :=
  List.mem_append_left _ hmem

end Deblob.Kafka
