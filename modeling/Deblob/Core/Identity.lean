import Deblob.Lib.Base32

/-!
# Content-addressed identifiers and schema tags

An identifier is a fixed prefix followed by the base32 text of a 32-byte digest. Well-formedness
travels with the text, so every identifier handed around parses back to itself. SHA-256 is a
parameter wherever a digest is taken.
-/

namespace Deblob.Core

abbrev Bytes := List UInt8

/-- A SHA-256 digest. -/
abbrev Digest := Vector UInt8 32

/-- The bytes of a text as UTF-8. -/
def utf8 (text : String) : Bytes := text.toList.flatMap String.utf8EncodeChar

theorem utf8_injective : Function.Injective utf8 := by
  intro left right heq
  have hbytes (text : String) : (utf8 text).toByteArray = text.toByteArray := by
    change text.toList.utf8Encode = text.toByteArray
    rw [String.utf8Encode_toList]
  apply String.toByteArray_inj.mp
  rw [← hbytes, ← hbytes, heq]

/-- A digest identifier under `tag`; the source generates one such type for each prefix. -/
structure DigestId (tag : String) where
  asStr : String
  wellFormed : ∃ body, asStr = tag ++ body ∧ Lib.Base32.decodesTo 32 body = true
deriving DecidableEq

abbrev SchemaId := DigestId "sch_"
abbrev CandidateId := DigestId "cand_"
abbrev SemanticId := DigestId "sem_"

instance instLawfulBEqSchemaId : LawfulBEq SchemaId := inferInstance

/-- The lowercase base32 body of a digest. -/
def digestBody (digest : Digest) : String := Lib.Base32.encode digest.toList

def DigestId.fromDigest {tag : String} (digest : Digest) : DigestId tag where
  asStr := tag ++ digestBody digest
  wellFormed := ⟨_, rfl, Lib.Base32.decodesTo_encode (by simp)⟩

/-- Different digests have different identifiers. -/
theorem DigestId.fromDigest_injective {tag : String} :
    Function.Injective (fromDigest : Digest → DigestId tag) := by
  intro left right heq
  have htext : (tag ++ digestBody left).toList = (tag ++ digestBody right).toList :=
    congrArg (fun id : DigestId tag ↦ id.asStr.toList) heq
  rw [String.toList_append, String.toList_append] at htext
  have hbody := String.toList_inj.mp (List.append_cancel_left htext)
  exact Vector.toList_inj.mp (Lib.Base32.encode_inj (by simp) hbody)

/-- `strip_prefix`: the rest of a text after a prefix it starts with. -/
def stripPrefix (tag text : String) : Option String :=
  if tag.toList <+: text.toList then
    some (String.ofList (text.toList.drop tag.toList.length))
  else none

@[simp]
theorem stripPrefix_append (tag body : String) : stripPrefix tag (tag ++ body) = some body := by
  simp [stripPrefix]

theorem eq_append_of_stripPrefix {tag text body : String}
    (hstrip : stripPrefix tag text = some body) : text = tag ++ body := by
  unfold stripPrefix at hstrip
  split at hstrip
  · rename_i hprefix
    obtain ⟨rest, hrest⟩ := hprefix
    cases hstrip
    apply String.toList_inj.mp
    simp [← hrest]
  · cases hstrip

/-- `split_once`: the texts before and after the first separator. -/
def splitOnce (separator : Char) (text : String) : Option (String × String) :=
  if separator ∈ text.toList then
    let before := text.toList.takeWhile (· ≠ separator)
    some (String.ofList before, String.ofList (text.toList.drop (before.length + 1)))
  else none

theorem splitOnce_append {left : String} (hleft : '=' ∉ left.toList) (right : String) :
    splitOnce '=' (left ++ "=" ++ right) = some (left, right) := by
  have htext : (left ++ "=" ++ right).toList = left.toList ++ '=' :: right.toList := by simp
  have hbefore : (left.toList ++ '=' :: right.toList).takeWhile (· ≠ '=') = left.toList := by
    rw [List.takeWhile_append_of_pos]
    · simp
    · intro c hc
      simpa using fun heq : c = '=' ↦ hleft (heq ▸ hc)
  unfold splitOnce
  rw [htext, if_pos (by simp), hbefore]
  simp

/-- `parse`: the prefix must match and the body must decode to 32 bytes. -/
def DigestId.parse {tag : String} (text : String) : Option (DigestId tag) :=
  match hstrip : stripPrefix tag text with
  | none => none
  | some body =>
    if hbody : Lib.Base32.decodesTo 32 body = true then
      some ⟨text, body, eq_append_of_stripPrefix hstrip, hbody⟩
    else none

/-- Every identifier parses back to itself. -/
@[simp]
theorem DigestId.parse_asStr {tag : String} (id : DigestId tag) : parse id.asStr = some id := by
  obtain ⟨text, body, rfl, hbody⟩ := id
  unfold parse
  split
  · rename_i hnone
    simp at hnone
  · rename_i found hsome
    obtain rfl : body = found := by simpa using hsome
    simp [hbody]

theorem DigestId.asStr_of_parse {tag text : String} {id : DigestId tag}
    (hparse : parse text = some id) : id.asStr = text := by
  unfold parse at hparse
  split at hparse
  · cases hparse
  · split_ifs at hparse
    cases hparse
    rfl

theorem DigestId.asStr_injective {tag : String} :
    Function.Injective (DigestId.asStr : DigestId tag → String) := by
  rintro ⟨left, _⟩ ⟨right, _⟩ rfl
  rfl

/-- The body of an identifier, its prefix removed. -/
def DigestId.body {tag : String} (id : DigestId tag) : String :=
  (stripPrefix tag id.asStr).getD id.asStr

@[simp]
theorem DigestId.body_fromDigest {tag : String} (digest : Digest) :
    (fromDigest digest : DigestId tag).body = digestBody digest := by
  simp [body, fromDigest]

theorem DigestId.eq_notMem_body {tag : String} (id : DigestId tag) : '=' ∉ id.body.toList := by
  obtain ⟨text, body, rfl, hbody⟩ := id
  simpa [DigestId.body] using Lib.Base32.eq_notMem_of_decodesTo hbody

theorem eq_notMem_digestBody (digest : Digest) : '=' ∉ (digestBody digest).toList := by
  have hbody := (DigestId.fromDigest digest : SchemaId).eq_notMem_body
  rwa [DigestId.body_fromDigest] at hbody

theorem DigestId.length_asStr {tag : String} (id : DigestId tag) :
    id.asStr.toList.length = tag.toList.length + 52 := by
  rcases id with ⟨text, body, rfl, hbody⟩
  have hlength : body.toList.length = 52 := by
    simp only [Lib.Base32.decodesTo, Bool.and_eq_true, beq_iff_eq] at hbody
    exact hbody.1.1
  simp [hlength]

/-- A source-scoped candidate identity: source and shape digest are folded into one digest. -/
def CandidateId.fromSourceAndDigest (sha256 : Bytes → Digest) (source : String) (digest : Digest) :
    CandidateId :=
  DigestId.fromDigest (sha256 (utf8 source ++ [0] ++ digest.toList))

/-- A schema family; its identifier is minted, not derived from content. -/
structure FamilyId where
  asStr : String
deriving DecidableEq

/-- The tag of one message. -/
inductive SchemaRef where
  | known (id : SchemaId)
  | provisional (id : CandidateId)
  | unresolved
  | malformed
  | tombstone
deriving DecidableEq

def SchemaRef.headerValue : SchemaRef → String
  | known id => id.asStr
  | provisional id => id.asStr
  | unresolved => "unresolved"
  | malformed => "malformed"
  | tombstone => "tombstone"

def SchemaRef.isKnown : SchemaRef → Bool
  | known _ => true
  | _ => false

/-- Why a message was quarantined. -/
inductive QuarantineReason where
  | duplicateKey
  | nonFiniteNumber
  | depthExceeded
  | sizeExceeded
  | fieldCountExceeded
  | keyLengthExceeded
  | parseError
  | utf8Error
deriving DecidableEq, Repr

/-- Where in which source topic a record was read. -/
structure SourceCursor where
  topic : String
  partition : ℕ
  offset : ℕ
deriving DecidableEq, Repr

/-- The outcome of classifying one message. -/
structure Classification where
  schemaRef : SchemaRef
  quarantine : Option QuarantineReason
  rawFp : Option Digest
  bucket : Option String
  fieldsCount : ℕ
  /-- A malformed message always carries its reason. -/
  malformed_reason : schemaRef = .malformed → quarantine.isSome

/-- The classification of a message that is not looked at. -/
def Classification.unresolved : Classification := ⟨.unresolved, none, none, none, 0, by simp⟩

end Deblob.Core
