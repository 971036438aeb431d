import Deblob.Core.TagText
import Deblob.Lib.Multimap

/-!
# Header hygiene of the ingest proxy

A request is forwarded without its `deblob-*` and hop-by-hop headers, and deblob then writes its own
schema tag and origin over whatever is left. Header names are lowercased when they are read.
-/

namespace Deblob.Http

open Core

structure HeaderName where
  asStr : String
  lower : asStr.toList.map Char.toLower = asStr.toList
deriving DecidableEq

theorem toLower_toLower (char : Char) : char.toLower.toLower = char.toLower := by
  by_cases hupper : char.val ≥ 'A'.val ∧ char.val ≤ 'Z'.val
  · have hval : char.toLower.val = char.val + 32 := congrArg Char.val (dif_pos hupper)
    have hlower : ¬ (char.toLower.val ≥ 'A'.val ∧ char.toLower.val ≤ 'Z'.val) := by
      rw [hval]
      simp only [ge_iff_le, UInt32.le_iff_toNat_le, UInt32.toNat_add] at hupper ⊢
      simp at hupper ⊢
      omega
    exact dif_neg hlower
  · have hsame : char.toLower = char := dif_neg hupper
    rw [hsame, hsame]

/-- The name a text on the wire stands for. -/
def HeaderName.fromBytes (text : String) : HeaderName where
  asStr := String.ofList (text.toList.map Char.toLower)
  lower := by simp [toLower_toLower]

/-- A byte a header value may hold. -/
def isValueByte (byte : UInt8) : Bool := (32 ≤ byte && byte != 127) || byte == 9

structure HeaderValue where
  bytes : Bytes
  valid : bytes.all isValueByte = true
deriving DecidableEq

def HeaderValue.fromStr (text : String) : Option HeaderValue :=
  if hvalid : (utf8 text).all isValueByte = true then some ⟨utf8 text, hvalid⟩ else none

abbrev HeaderMap := Lib.Multimap HeaderName HeaderValue

/-- The headers of a message, in the order in which they are on the wire. -/
def HeaderMap.ofWire (wire : List (String × HeaderValue)) : HeaderMap :=
  wire.foldl (fun headers field ↦ headers.append (.fromBytes field.1) field.2) .empty

def reservedPrefix : String := "deblob-"

def schemaIdHeader : HeaderName := ⟨"deblob-schema-id", by decide⟩
def originHeader : HeaderName := ⟨"deblob-origin", by decide⟩
def quarantineReasonHeader : HeaderName := ⟨"deblob-quarantine-reason", by decide⟩
def idempotencyKeyHeader : HeaderName := ⟨"idempotency-key", by decide⟩
def authorization : HeaderName := ⟨"authorization", by decide⟩

def hopByHop : List String :=
  ["connection", "keep-alive", "transfer-encoding", "te", "trailer", "upgrade", "proxy-connection",
    "proxy-authenticate", "proxy-authorization"]

def isReserved (name : String) : Bool :=
  (name.toList.take reservedPrefix.length).map Char.toLower == reservedPrefix.toList

def isHopByHop (name : String) : Bool :=
  hopByHop.any fun header ↦ name.toList.map Char.toLower == header.toList

def stripReservedAndHopByHop (headers : HeaderMap) : HeaderMap :=
  headers.fields.foldl (fun out field ↦
    if isReserved field.1.asStr || isHopByHop field.1.asStr then out
    else out.append field.1 field.2) .empty

theorem all_isValueByte_utf8 {text : String} (hvisible : text.toList.all isVisible = true) :
    (utf8 text).all isValueByte = true := by
  rw [List.all_eq_true] at hvisible ⊢
  intro byte hbyte
  obtain ⟨char, hchar, hbyte⟩ := List.mem_flatMap.mp hbyte
  have hrange := hvisible char hchar
  simp only [isVisible, Bool.and_eq_true, decide_eq_true_eq] at hrange
  rw [Lib.utf8EncodeChar_ascii (by omega), List.mem_singleton] at hbyte
  have hnat : byte.toNat = char.toNat := by
    subst hbyte
    change char.toNat % 256 = char.toNat
    omega
  have hle : (32 : UInt8) ≤ byte := by
    rw [UInt8.le_iff_toNat_le, hnat]
    exact hrange.1
  have hne : byte ≠ 127 := by
    intro heq
    rw [heq] at hnat
    exact hrange.2.ne hnat.symm
  simp [isValueByte, hle, hne]

/-- The tag of a message as a header value; its text is always one. -/
def schemaIdValue (schemaRef : SchemaRef) : HeaderValue where
  bytes := utf8 schemaRef.headerValue
  valid := all_isValueByte_utf8 (visible_headerValue schemaRef)

def invalidOrigin : HeaderValue := ⟨utf8 "invalid-origin", by decide⟩

def originValue (origin : String) : HeaderValue := (HeaderValue.fromStr origin).getD invalidOrigin

/-- Write the tag and the origin over whatever is there under their names. -/
def withTag (headers : HeaderMap) (schemaRef : SchemaRef) (origin : String) : HeaderMap :=
  (headers.insert schemaIdHeader (schemaIdValue schemaRef)).insert originHeader (originValue origin)

def quarantineReasonValue : QuarantineReason → HeaderValue
  | .duplicateKey => ⟨utf8 "duplicate_key", by decide⟩
  | .nonFiniteNumber => ⟨utf8 "non_finite_number", by decide⟩
  | .depthExceeded => ⟨utf8 "depth_exceeded", by decide⟩
  | .sizeExceeded => ⟨utf8 "size_exceeded", by decide⟩
  | .fieldCountExceeded => ⟨utf8 "field_count_exceeded", by decide⟩
  | .keyLengthExceeded => ⟨utf8 "key_length_exceeded", by decide⟩
  | .parseError => ⟨utf8 "parse_error", by decide⟩
  | .utf8Error => ⟨utf8 "utf8_error", by decide⟩

def withQuarantineReason (headers : HeaderMap) (reason : QuarantineReason) : HeaderMap :=
  headers.insert quarantineReasonHeader (quarantineReasonValue reason)

/-- A generated identifier in its hyphenated form. -/
structure Uuid where
  text : String
  visible : text.toList.all isVisible = true

/-- The identifiers of the runs on fixed inputs. -/
def firstUuid : Uuid := ⟨"0190b0a0-0000-7000-8000-000000000000", by decide⟩

def secondUuid : Uuid := ⟨"0190b0a0-0000-7000-8000-000000000001", by decide⟩

def Uuid.value (uuid : Uuid) : HeaderValue := ⟨utf8 uuid.text, all_isValueByte_utf8 uuid.visible⟩

/-- A client's own key is left as it is; without one a fresh key is written. -/
def ensureIdempotencyKey (generated : Uuid) (headers : HeaderMap) : HeaderMap :=
  if headers.containsKey idempotencyKeyHeader then headers
  else headers.insert idempotencyKeyHeader generated.value

theorem fromStr_headerValue (schemaRef : SchemaRef) :
    HeaderValue.fromStr schemaRef.headerValue = some (schemaIdValue schemaRef) :=
  dif_pos (all_isValueByte_utf8 (visible_headerValue schemaRef))

/-- Stripping keeps the values of every header it does not drop. -/
theorem getAll_stripReservedAndHopByHop (headers : HeaderMap) (name : HeaderName) :
    (stripReservedAndHopByHop headers).getAll name =
      if isReserved name.asStr || isHopByHop name.asStr then [] else headers.getAll name := by
  have hfold := Lib.Multimap.getAll_foldl_append
    (fun name : HeaderName ↦ isReserved name.asStr || isHopByHop name.asStr) headers.fields
    .empty name
  rw [Lib.Multimap.getAll_empty, List.nil_append] at hfold
  exact hfold

theorem getAll_ensureIdempotencyKey (generated : Uuid) (headers : HeaderMap) (name : HeaderName) :
    (ensureIdempotencyKey generated headers).getAll name =
      if idempotencyKeyHeader = name ∧ headers.getAll name = [] then [generated.value]
      else headers.getAll name := by
  unfold ensureIdempotencyKey
  by_cases hname : idempotencyKeyHeader = name
  · subst hname
    by_cases hnone : headers.getAll idempotencyKeyHeader = []
    · have hcontains := mt Lib.Multimap.containsKey_eq_true_iff.mp (not_not.mpr hnone)
      rw [if_neg hcontains]
      simp [hnone]
    · rw [if_pos (Lib.Multimap.containsKey_eq_true_iff.mpr hnone), if_neg (by simp [hnone])]
  · have hother : ¬ (idempotencyKeyHeader = name ∧ headers.getAll name = []) :=
      fun hboth ↦ hname hboth.1
    rw [if_neg hother]
    by_cases hcontains : headers.containsKey idempotencyKeyHeader = true
    · rw [if_pos hcontains]
    · rw [if_neg hcontains, Lib.Multimap.getAll_insert, if_neg hname]

end Deblob.Http
