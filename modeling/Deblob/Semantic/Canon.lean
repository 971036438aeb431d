import Deblob.Lib.Bytes
import Deblob.Lib.SortByKey
import Deblob.Semantic.Decimal
import Deblob.Semantic.Types

/-!
# Canonical semantic bytes

Metadata is written as bytes with the fields in the order of their paths and the enum values in the
order of their own bytes. Texts and lists carry their length as 32 bits, alternatives a tag and
optional attributes a bit of a bitmap. What asserts nothing is not written. NFC normalization and
SHA-256 are parameters.
-/

namespace Deblob.Semantic.Canon

open Core Lib
open Umbrella (UnitSystem)

inductive CanonError where
  | invalidPathKey (fieldIndex segmentIndex : ℕ)
  | duplicatePath (firstFieldIndex secondFieldIndex : ℕ)
  | duplicateEnumKey (fieldIndex : ℕ)
  | invalidEnumNumber (fieldIndex : ℕ)
deriving DecidableEq

/-- `push_i64`: the two's complement in eight bytes. -/
def i64Bytes (number : ℤ) : Bytes := bigEndian 8 (number % 2 ^ 64).toNat

/-! ## Paths -/

/-- The control characters of Unicode. -/
def isControl (char : Char) : Bool :=
  char.toNat < 0x20 || (0x7f ≤ char.toNat && char.toNat < 0xa0)

def encodeSegment (nfc : String → String) (fieldIndex segmentIndex : ℕ) :
    PathSegment → Except CanonError Bytes
  | .wildcard => .ok [1]
  | .key name =>
    if name.toList.any isControl then .error (.invalidPathKey fieldIndex segmentIndex)
    else .ok (0 :: lpStr (nfc name))

def encodePath (nfc : String → String) (fieldIndex : ℕ) (path : List PathSegment) :
    Except CanonError Bytes := do
  let segments ← path.zipIdx.mapM fun (segment, segmentIndex) ↦
    encodeSegment nfc fieldIndex segmentIndex segment
  return bigEndian 4 path.length ++ segments.flatten

/-! ## Enum values -/

/-- A value behind the tag of its type; a number that is no JSON literal is refused. -/
def typedValueBytes (fieldIndex : ℕ) : EnumValue → Except CanonError Bytes
  | .null => .ok [3]
  | .bool value => .ok [2, if value then 1 else 0]
  | .number text =>
    match canonicalDecimal text with
    | none => .error (.invalidEnumNumber fieldIndex)
    | some decimal => .ok (1 :: (if decimal.negative then 1 else 0) ::
        (i64Bytes decimal.exponent ++ lpStr (String.ofList decimal.digits)))
  | .string text => .ok (0 :: lpStr text)

def encodeMeaningCode (meaning : MeaningCode) : Bytes :=
  lpStr meaning.vocabulary ++ lpStr meaning.code

/-- The entries in the order of their values; two entries of one value are refused. -/
def encodeEnumSemantics (fieldIndex : ℕ) (mappings : List EnumMapping) :
    Except CanonError Bytes := do
  let entries ← mappings.mapM fun mapping ↦ do
    let valueBytes ← typedValueBytes fieldIndex mapping.value
    return (valueBytes, mapping.meaning)
  let entries := sortByKey entries
  if repeats (entries.map Prod.fst) then .error (.duplicateEnumKey fieldIndex)
  else return counted (fun (valueBytes, meaning) ↦ valueBytes ++ encodeMeaningCode meaning) entries

/-! ## Attributes -/

def encodeUnit (unit : Umbrella.Unit) : Bytes :=
  let tag : UInt8 := match unit.system with
    | .ucum => 0
    | .iso4217 => 1
    | .registered => 2
  tag :: lpStr unit.code

def encodeTemporalKind : TemporalKind → UInt8
  | .instant => 0
  | .localDatetime => 1
  | .date => 2
  | .duration => 3

def encodeTemporalResolution : TemporalResolution → UInt8
  | .s => 0
  | .ms => 1
  | .us => 2
  | .ns => 3

def encodeEpoch : EpochBase → Bytes
  | .unix => [0]
  | .registered code => 1 :: lpStr code

/-- The bit of an attribute that is there. -/
def presence {α : Type} (bit : UInt8) (part : Option α) : UInt8 :=
  if part.isSome then bit else 0

/-- A bitmap and the bytes of the parts that are there; nothing if none is. -/
def encodeTemporal (temporal : Temporal) : Option Bytes :=
  let bitmap := presence 1 temporal.kind ||| presence 2 temporal.epoch |||
    presence 4 temporal.resolution
  let body := temporal.kind.elim [] (fun kind ↦ [encodeTemporalKind kind]) ++
    (temporal.epoch.elim [] encodeEpoch ++
      temporal.resolution.elim [] (fun resolution ↦ [encodeTemporalResolution resolution]))
  if bitmap = 0 then none else some (bitmap :: body)

/-- An empty list of enum values counts as none. -/
def encodeEnums (fieldIndex : ℕ) (enumSemantics : Option (List EnumMapping)) :
    Except CanonError (Option Bytes) :=
  match enumSemantics with
  | none => .ok none
  | some mappings =>
    if mappings.isEmpty then .ok none else (encodeEnumSemantics fieldIndex mappings).map some

/-- A bitmap and the bytes of the attributes that are there; nothing if none is. -/
def encodeFieldSemantics (fieldIndex : ℕ) (semantics : FieldSemantics) :
    Except CanonError (Option Bytes) := do
  let temporalBytes := semantics.temporal.bind encodeTemporal
  let enumBytes ← encodeEnums fieldIndex semantics.enumSemantics
  let bitmap := presence 1 semantics.canonicalFieldId |||
    presence 2 semantics.identifierNamespace ||| presence 4 semantics.unit |||
    presence 8 semantics.numericScale ||| presence 16 temporalBytes ||| presence 32 enumBytes
  let body := semantics.canonicalFieldId.elim [] lpStr ++
    (semantics.identifierNamespace.elim [] lpStr ++
      (semantics.unit.elim [] encodeUnit ++
        (semantics.numericScale.elim [] (fun scale ↦ i64Bytes scale.toInt) ++
          (temporalBytes.getD [] ++ enumBytes.getD []))))
  return if bitmap = 0 then none else some (bitmap :: body)

/-! ## Metadata -/

structure Normalized where
  eventTypeBytes : Option Bytes
  fields : List (Bytes × Bytes)

/-- Nothing survived. -/
def Normalized.isEmpty (normalized : Normalized) : Bool :=
  normalized.eventTypeBytes.isNone && normalized.fields.isEmpty

/-- The first position that holds an earlier path again, behind the first such earlier one. -/
def firstDuplicate (paths : List Bytes) : Option (ℕ × ℕ) :=
  (List.range paths.length).findSome? fun later ↦
    ((List.range later).find? fun earlier ↦ paths[earlier]? = paths[later]?).map (·, later)

/-- Paths are checked for all fields, also for those that are dropped. -/
def normalize (nfc : String → String) (metadata : SemanticMetadata) :
    Except CanonError Normalized := do
  let encodedPaths ← metadata.fields.zipIdx.mapM fun (field, fieldIndex) ↦
    encodePath nfc fieldIndex field.path
  match firstDuplicate encodedPaths with
  | some (earlier, later) => .error (.duplicatePath earlier later)
  | none =>
    let attributes ← metadata.fields.zipIdx.mapM fun (field, fieldIndex) ↦
      encodeFieldSemantics fieldIndex field.semantics
    let fields := (encodedPaths.zip attributes).filterMap fun (pathBytes, attributeBytes) ↦
      attributeBytes.map (pathBytes, ·)
    return ⟨metadata.eventType.map lpStr, sortByKey fields⟩

def encodeNormalized (normalized : Normalized) : Bytes :=
  (match normalized.eventTypeBytes with
    | some bytes => 1 :: bytes
    | none => [0]) ++ counted (fun (pathBytes, attributeBytes) ↦ pathBytes ++ attributeBytes)
      normalized.fields

def canonicalSemanticBytes (nfc : String → String) (metadata : SemanticMetadata) :
    Except CanonError Bytes :=
  (normalize nfc metadata).map encodeNormalized

/-! ## The digest -/

def vocabVersion : String := "deblob-semantic-v1"

/-- Metadata of which nothing survives has no fingerprint. -/
def semanticFingerprint (nfc : String → String) (sha256 : Bytes → Digest)
    (metadata : SemanticMetadata) : Except CanonError (Option SemanticId) := do
  let normalized ← normalize nfc metadata
  if normalized.isEmpty then return none
  else return some (.fromDigest (sha256 (utf8 vocabVersion ++ 0 :: encodeNormalized normalized)))

end Deblob.Semantic.Canon
