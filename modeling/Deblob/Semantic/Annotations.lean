import Deblob.Cold.Unattended
import Deblob.Lib.Pending
import Deblob.Redis.RevisionHistory
import Deblob.Redis.VaultRuns
import Deblob.Semantic.Canon
import Deblob.Semantic.NeighborCoverage
import Deblob.Semantic.Path
import Deblob.Semantic.Signature
import Deblob.Semantic.Vocab
import Mathlib.Data.List.DropRight

/-!
# Annotating schemas

A schema is annotated by a `PUT` that is checked against the stored schema and then handed to the
append script, together with the etag that its client has seen. Checks, appends and the reads behind
the answers interleave with other annotations and with publications. One invariant says of every
state what is stored, what a `PUT` in flight has passed, and which etags were given away.
-/

namespace Deblob.Semantic

open Core Lib Redis
open Canon (CanonError canonicalSemanticBytes semanticFingerprint)
open Cold (actorFromHeaders isReservedActor)
open Signature (hexEncode)
open Umbrella (Value)

/-! ## Requests and answers -/

inductive ReasonCode where
  | correction
  | ontologyUpgrade
  | policyReview
  | sourceContractChange
  | operatorOverride

def reasonCodeStr : ReasonCode → String
  | .correction => "correction"
  | .ontologyUpgrade => "ontology_upgrade"
  | .policyReview => "policy_review"
  | .sourceContractChange => "source_contract_change"
  | .operatorOverride => "operator_override"

structure PutSemanticRequest where
  metadata : SemanticMetadata
  reasonCode : Option ReasonCode
  reason : Option String

/-- A `PUT` with the schema id of its path. -/
structure PutCall where
  schId : String
  headers : Http.HeaderMap
  request : PutSemanticRequest

inductive AnnotationError where
  | id (text : String)
  | registry (error : GetSchemaError)
  | notFound
  | vocab (error : VocabError)
  | path (error : PathError)
  | unknownPath (path : List PathSegment)
  | canon (error : CanonError)
  | noAssertions
  | ifMatch
  | degraded
  | missingReason
  | etagConflict (expected : Option ℕ) (current : ℕ)
  | corrupt

def AnnotationError.status : AnnotationError → ℕ
  | .ifMatch | .missingReason => 400
  | .notFound => 404
  | .etagConflict .. => 409
  | .id _ | .vocab _ | .path _ | .unknownPath _ | .canon _ | .noAssertions => 422
  | .registry _ | .degraded | .corrupt => 503

/-- The status, the number in the `ETag` header and the body of an answer. -/
structure SemanticAnswer where
  status : ℕ
  etag : ℕ
  semanticFingerprint : SemanticId
  metadata : SemanticMetadata

/-! ## Checking a request -/

def ifMatchHeader : Http.HeaderName := ⟨"if-match", by decide⟩

def trimMatches (keep : UInt8 → Bool) (text : Bytes) : Bytes :=
  (text.dropWhile keep).rdropWhile keep

/-- An absent header stands for a schema that was never annotated; quotes are optional. -/
def parseIfMatch (headers : Http.HeaderMap) : Except AnnotationError (Option ℕ) :=
  match headers.get ifMatchHeader with
  | none => .ok none
  | some raw =>
    match raw.toStr.bind fun text ↦ Http.parseUsize
        (trimMatches (· == 34) (trimMatches (fun byte ↦ byte == 32 || byte == 9) text)) with
    | none => .error .ifMatch
    | some etag => .ok (some etag)

def validatePaths (metadata : SemanticMetadata) (validPaths : Paths) :
    Except AnnotationError Unit :=
  metadata.fields.forM fun field ↦
    if field.path ∈ validPaths then .ok () else .error (.unknownPath field.path)

/-- What annotating rests on: the normalization and the digest, the JSON library at the types it is
used at, and the ids an operator registered. -/
structure AnnotationEnv where
  nfc : String → String
  sha256 : Bytes → Digest
  fromStr : Bytes → Except String Value
  registries : Registries
  json : RecordJson
  metadataJson : MetadataJson

def AnnotationEnv.codec (env : AnnotationEnv) : MetadataCodec SemanticMetadata :=
  env.metadataJson.codec

section

variable (env : AnnotationEnv)

def findSchema (vault : SchemaVault) (schId : String) :
    Except AnnotationError (SchemaId × SchemaRecord) :=
  match (DigestId.parse schId : Option SchemaId) with
  | none => .error (.id schId)
  | some id =>
    match getSchema env.json vault id with
    | .error error => .error (.registry error)
    | .ok none => .error .notFound
    | .ok (some record) => .ok (id, record)

/-- `put_semantic` up to the call of `append_revision`, which mints the revision id. -/
def checkPut (vault : SchemaVault) (call : PutCall) (nowMs : ℤ) (revisionId : RevisionId) :
    Except AnnotationError (AppendCall SemanticMetadata) := do
  let metadata := call.request.metadata
  let found ← findSchema env vault call.schId
  (validateMetadata env.registries metadata).mapError .vocab
  let validPaths ← (canonicalFieldPathsFor env.fromStr found.2.canonicalizer
    (utf8 found.2.canonical)).mapError .path
  validatePaths metadata validPaths
  let canonicalBytes ← (canonicalSemanticBytes env.nfc metadata).mapError .canon
  let fingerprint ← (semanticFingerprint env.nfc env.sha256 metadata).mapError .canon
  let semId ← fingerprint.elim (.error .noAssertions) .ok
  let expectedEtag ← parseIfMatch call.headers
  return {
    schId := found.1
    semId := semId
    canonicalBytesHex := hexEncode canonicalBytes
    metadata := metadata
    actor := actorFromHeaders call.headers
    reasonCode := reasonCodeStr (call.request.reasonCode.getD .correction)
    reason := call.request.reason.getD ""
    recordedAt := nowMs
    effectiveFrom := nowMs
    revisionId := revisionId
    expectedEtag := expectedEtag }

/-! ## The machine -/

/-- Where a `PUT` stands: its append is due, or the revision is to be read for the answer. -/
inductive PutStage where
  | appending (append : AppendCall SemanticMetadata)
  | reading (append : AppendCall SemanticMetadata) (reply : AppendReply)

structure AnnotationState where
  vault : SchemaVault
  log : SemStore
  inFlight : List (PutCall × PutStage)
  answers : List (PutCall × Except AnnotationError SemanticAnswer)

def AnnotationState.empty : AnnotationState := ⟨.empty, .empty, [], []⟩

inductive AnnotationEvent where
  | vault (event : VaultEvent)
  | put (call : PutCall) (nowMs : ℤ) (revisionId : RevisionId)
  | append (position : ℕ) (healthy : Bool)
  | read (position : ℕ)

/-- What the script refuses, with the etag that the client expected. -/
def appendFailure (append : AppendCall SemanticMetadata) : AppendError → AnnotationError
  | .missingReason => .missingReason
  | .etagConflict current => .etagConflict append.expectedEtag current

def answerOf (reply : AppendReply) (revision : Revision SemanticMetadata) : SemanticAnswer where
  status := match reply.outcome with
    | .appended => 201
    | .alreadyActive => 200
  etag := reply.etag
  semanticFingerprint := revision.hash.semId
  metadata := revision.metadata

def readRevision (log : SemStore) (schId : SchemaId) (reply : AppendReply) :
    Except AnnotationError SemanticAnswer :=
  match log.revisions schId reply.revisionId with
  | none => .error .corrupt
  | some hash =>
    match revisionFromHash env.codec hash with
    | .error _ => .error .corrupt
    | .ok revision => .ok (answerOf reply revision)

/-- `get_semantic`: the pointer is read before the revision, so a write may fall in between. -/
def getSemantic (first second : SemStore) (text : String) :
    Except AnnotationError SemanticAnswer :=
  match (DigestId.parse text : Option SchemaId) with
  | none => .error (.id text)
  | some id =>
    match first.active id with
    | none => .error .notFound
    | some pointer => readRevision env second id
        ⟨pointer.revisionId, pointer.semId, pointer.etag, .alreadyActive⟩

/-- The `PUT` at a position is answered. -/
def AnnotationState.answer (state : AnnotationState) (position : ℕ) (call : PutCall)
    (result : Except AnnotationError SemanticAnswer) : AnnotationState :=
  { state with
    inFlight := replaceAt state.inFlight position none
    answers := state.answers ++ [(call, result)] }

/-- `append_revision` up to the reply of the script; a write is refused while the store does not
persist. -/
def AnnotationState.append (state : AnnotationState) (position : ℕ) (call : PutCall)
    (append : AppendCall SemanticMetadata) (healthy : Bool) : AnnotationState :=
  if !healthy then state.answer position call (.error .degraded)
  else
    match appendScript env.codec state.log append with
    | (.error error, log) =>
      { state with log := log }.answer position call (.error (appendFailure append error))
    | (.ok reply, log) =>
      { state with
        log := log
        inFlight := replaceAt state.inFlight position (some (call, .reading append reply)) }

/-- Any clients annotate schemas while others publish and name them. -/
def annotationMachine : Lib.Machine AnnotationState AnnotationEvent where
  init := .empty
  step state
    | .vault event =>
      ((vaultMachine env.json).step state.vault event).map fun vault ↦ { state with vault := vault }
    | .put call nowMs revisionId =>
      match checkPut env state.vault call nowMs revisionId with
      | .error error => some { state with answers := state.answers ++ [(call, .error error)] }
      | .ok append =>
        some { state with inFlight := state.inFlight ++ [(call, .appending append)] }
    | .append position healthy =>
      match state.inFlight[position]? with
      | some (call, .appending append) => some (state.append env position call append healthy)
      | _ => none
    | .read position =>
      match state.inFlight[position]? with
      | some (call, .reading append reply) =>
        some (state.answer position call (readRevision env state.log append.schId reply))
      | _ => none

/-- Published records can be read back, and the script gets fresh revision ids. -/
def mintsRevisions (state : AnnotationState) : AnnotationEvent → Prop
  | .vault event => plainPublications env.json state.vault event
  | .append position _ => ∀ call append,
    state.inFlight[position]? = some (call, .appending append) → mintsFresh state.log append
  | _ => True

end

/-! ## What a checked request carries -/

/-- Metadata that passes the checks which do not look at a schema, with its bytes and its digest. -/
structure WellFormed (env : AnnotationEnv) (metadata : SemanticMetadata) (semId : SemanticId)
    (canonicalBytesHex : String) : Prop where
  eventType : ∀ event ∈ metadata.eventType, event ∈ env.registries.eventTypeIds
  fields : ∀ field ∈ metadata.fields, KnownSemantics env.registries field.semantics
  bytes : (canonicalSemanticBytes env.nfc metadata).map hexEncode = .ok canonicalBytesHex
  fingerprint : semanticFingerprint env.nfc env.sha256 metadata = .ok (some semId)

/-- Every annotated path is one of the stored schema. -/
def PathsKnown (env : AnnotationEnv) (vault : SchemaVault) (schId : SchemaId)
    (metadata : SemanticMetadata) : Prop :=
  ∃ hash paths, vault.registry.schemas schId = some hash ∧
    canonicalFieldPathsFor env.fromStr hash.canonicalizer (utf8 hash.canonical) = .ok paths ∧
    ∀ field ∈ metadata.fields, field.path ∈ paths

structure ValidAppend (env : AnnotationEnv) (vault : SchemaVault)
    (append : AppendCall SemanticMetadata) : Prop where
  wellFormed : WellFormed env append.metadata append.semId append.canonicalBytesHex
  paths : PathsKnown env vault append.schId append.metadata
  actor : isReservedActor append.actor = false

/-- The append stands for the request. -/
structure Carries (call : PutCall) (append : AppendCall SemanticMetadata) : Prop where
  schId : (DigestId.parse call.schId : Option SchemaId) = some append.schId
  metadata : append.metadata = call.request.metadata
  expected : parseIfMatch call.headers = .ok append.expectedEtag

section

variable {env : AnnotationEnv} {vault later : SchemaVault} {call : PutCall}
  {append : AppendCall SemanticMetadata} {schId : SchemaId} {metadata : SemanticMetadata}

theorem PathsKnown.keeps (hpaths : PathsKnown env vault schId metadata)
    (hkeeps : Keeps vault later) : PathsKnown env later schId metadata := by
  rcases hpaths with ⟨hash, paths, hhash, hwalk, hknown⟩
  rcases hkeeps.schemas schId hash hhash with ⟨variants, hlater⟩
  exact ⟨_, paths, hlater, hwalk, hknown⟩

theorem ValidAppend.keeps (hvalid : ValidAppend env vault append) (hkeeps : Keeps vault later) :
    ValidAppend env later append :=
  ⟨hvalid.wellFormed, hvalid.paths.keeps hkeeps, hvalid.actor⟩

theorem mapError_eq_ok {Err Other α : Type} {result : Except Err α} {change : Err → Other}
    {value : α} : result.mapError change = .ok value ↔ result = .ok value := by
  cases result <;> simp [Except.mapError]

theorem validatePaths_eq_ok {validPaths : Paths} : validatePaths metadata validPaths = .ok () ↔
    ∀ field ∈ metadata.fields, field.path ∈ validPaths := by
  unfold validatePaths
  rw [Except.forM_eq_ok]
  refine forall₂_congr fun field _ ↦ ?_
  split_ifs with hpath <;> simp [hpath]

theorem findSchema_eq_ok {text : String} {found : SchemaId × SchemaRecord}
    (hfound : findSchema env vault text = .ok found) :
    (DigestId.parse text : Option SchemaId) = some found.1 ∧
      getSchema env.json vault found.1 = .ok (some found.2) := by
  unfold findSchema at hfound
  cases hparse : (DigestId.parse text : Option SchemaId) with
  | none =>
      rw [hparse] at hfound
      cases hfound
  | some id =>
      rw [hparse] at hfound
      dsimp only at hfound
      cases hread : getSchema env.json vault id with
      | error error =>
          rw [hread] at hfound
          cases hfound
      | ok stored =>
          rw [hread] at hfound
          cases stored with
          | none => cases hfound
          | some record =>
              cases hfound
              exact ⟨rfl, hread⟩

/-- A request that passes every check stands for a valid append. -/
theorem checkPut_eq_ok {nowMs : ℤ} {revisionId : RevisionId}
    (hlistable : Listable env.json vault)
    (hcheck : checkPut env vault call nowMs revisionId = .ok append) :
    ValidAppend env vault append ∧ Carries call append := by
  unfold checkPut at hcheck
  rcases Except.bind_eq_ok.mp hcheck with ⟨found, hfound, hcheck⟩
  rcases Except.check_bind_eq_ok.mp hcheck with ⟨hvocab, hcheck⟩
  rcases Except.bind_eq_ok.mp hcheck with ⟨validPaths, hwalk, hcheck⟩
  rcases Except.check_bind_eq_ok.mp hcheck with ⟨hpaths, hcheck⟩
  rcases Except.bind_eq_ok.mp hcheck with ⟨canonicalBytes, hbytes, hcheck⟩
  rcases Except.bind_eq_ok.mp hcheck with ⟨fingerprint, hfingerprint, hcheck⟩
  rcases Except.bind_eq_ok.mp hcheck with ⟨semId, hsem, hcheck⟩
  rcases Except.bind_eq_ok.mp hcheck with ⟨expectedEtag, hexpected, hcheck⟩
  cases hcheck
  rcases findSchema_eq_ok hfound with ⟨hparse, hread⟩
  rcases hlistable.readAs hread with ⟨hash, hhash, hrecord⟩
  rw [mapError_eq_ok] at hvocab hwalk hbytes hfingerprint
  rw [hrecord.canonicalizer, hrecord.canonical] at hwalk
  rcases validateMetadata_eq_ok.mp hvocab with ⟨hevent, hfields⟩
  cases fingerprint with
  | none => cases hsem
  | some known =>
      cases hsem
      refine ⟨⟨⟨hevent, hfields, ?_, hfingerprint⟩,
        ⟨hash, validPaths, hhash, hwalk, validatePaths_eq_ok.mp hpaths⟩,
        Cold.isReservedActor_actorFromHeaders call.headers⟩, hparse, rfl, hexpected⟩
      rw [hbytes]
      rfl

/-! ## What the script does with a checked request -/

/-- A revision that an append wrote. -/
structure WrittenBy (env : AnnotationEnv) (append : AppendCall SemanticMetadata)
    (hash : RevisionHash) : Prop where
  semId : hash.semId = append.semId
  canonicalBytesHex : hash.canonicalBytesHex = append.canonicalBytesHex
  metadataJson : hash.metadataJson = env.codec.toJson append.metadata
  actor : hash.actor = append.actor
  reason : hash.reason = append.reason

/-- Every stored revision was written by a valid append, which gave a reason. -/
def ValidLog (env : AnnotationEnv) (vault : SchemaVault) (log : SemStore) : Prop :=
  ∀ schId id hash, log.revisions schId id = some hash → ∃ append, append.schId = schId ∧
    append.reason ≠ "" ∧ ValidAppend env vault append ∧ WrittenBy env append hash

/-- What a reply says about the log: the append wrote the revision over the etag that was expected,
or the active revision has the same bytes. -/
structure Replied (env : AnnotationEnv) (log : SemStore) (append : AppendCall SemanticMetadata)
    (reply : AppendReply) : Prop where
  found : ∃ hash, log.revisions append.schId reply.revisionId = some hash ∧
    (reply.outcome = .appended → WrittenBy env append hash) ∧
    hash.canonicalBytesHex = append.canonicalBytesHex
  etag : reply.outcome = .appended → reply.etag = append.expected + 1

variable {log next : SemStore} {reply : AppendReply}

theorem ValidLog.keeps (hlog : ValidLog env vault log) (hkeeps : Keeps vault later) :
    ValidLog env later log := by
  intro schId id hash hhash
  rcases hlog schId id hash hhash with ⟨append, hschema, hreason, hvalid, hwritten⟩
  exact ⟨append, hschema, hreason, hvalid.keeps hkeeps, hwritten⟩

/-- A run of the script leaves the log alone, or it appends over the expected etag. -/
theorem appendScript_spec (env : AnnotationEnv) (log : SemStore)
    (append : AppendCall SemanticMetadata) :
    ((appendScript env.codec log append).2 = log ∧
      (∀ reply, (appendScript env.codec log append).1 = .ok reply →
        reply.outcome = .alreadyActive ∧ ∃ hash,
          log.revisions append.schId reply.revisionId = some hash ∧
          hash.canonicalBytesHex = append.canonicalBytesHex) ∧
      ∀ current, (appendScript env.codec log append).1 = .error (.etagConflict current) →
        current = currentEtag log append.schId ∧ append.expected ≠ current) ∨
    (append.reason ≠ "" ∧ append.expected = currentEtag log append.schId ∧
      appendScript env.codec log append = (.ok ⟨append.revisionId, append.semId,
        currentEtag log append.schId + 1, .appended⟩, appendWrites env.codec log append)) := by
  unfold appendScript
  cases hreplayed : replayed log append with
  | some pointer =>
      refine .inl ⟨rfl, ?_, fun current hconflict ↦ by cases hconflict⟩
      rintro reply ⟨⟩
      rcases Option.filter_eq_some_iff.mp hreplayed with ⟨-, hsame⟩
      rcases (Option.any_eq_true _ _).mp hsame with ⟨hash, hhash, hbytes⟩
      exact ⟨rfl, hash, hhash, eq_of_beq hbytes⟩
  | none =>
      by_cases hreason : append.reason = ""
      · exact .inl (by simp [hreason])
      · by_cases hetag : append.expected = currentEtag log append.schId
        · exact .inr ⟨hreason, hetag, by simp [hreason, hetag]⟩
        · refine .inl ⟨by simp [hreason, hetag], by simp [hreason, hetag], ?_⟩
          rintro current hconflict
          obtain rfl : currentEtag log append.schId = current := by
            simpa [hreason, hetag] using hconflict
          exact ⟨rfl, hetag⟩

theorem writtenBy_newRevision (log : SemStore) (append : AppendCall SemanticMetadata) :
    WrittenBy env append (newRevision env.codec log append) :=
  ⟨rfl, rfl, rfl, rfl, rfl⟩

theorem ValidLog.appendWrites (hlog : ValidLog env vault log)
    (hvalid : ValidAppend env vault append) (hreason : append.reason ≠ "") :
    ValidLog env vault (appendWrites env.codec log append) := by
  intro schId id hash hhash
  rcases appendWrites_revisions_cases hhash with ⟨rfl, -, rfl⟩ | hold
  · exact ⟨append, rfl, hreason, hvalid, writtenBy_newRevision log append⟩
  · exact hlog schId id hash hold

/-- Revisions are never written again, so what a reply says stays true. -/
theorem Replied.appendWrites {other : AppendCall SemanticMetadata}
    (hreplied : Replied env log append reply) (hfresh : mintsFresh log other) :
    Replied env (appendWrites env.codec log other) append reply := by
  rcases hreplied.found with ⟨hash, hhash, hwritten, hbytes⟩
  refine ⟨⟨hash, ?_, hwritten, hbytes⟩, hreplied.etag⟩
  by_cases hschema : append.schId = other.schId
  · rw [hschema] at hhash
    have hne : reply.revisionId ≠ other.revisionId := by
      intro heq
      rw [mintsFresh, ← heq, hhash] at hfresh
      cases hfresh
    rw [hschema, appendWrites_revisions_self, Function.update_of_ne hne]
    exact hhash
  · rw [appendWrites_revisions_of_ne hschema]
    exact hhash

/-! ## Answers -/

theorem semId_of_bytes {semId : SemanticId} {canonicalBytes : Bytes}
    (hbytes : canonicalSemanticBytes env.nfc metadata = .ok canonicalBytes)
    (hfingerprint : semanticFingerprint env.nfc env.sha256 metadata = .ok (some semId)) :
    semId = .fromDigest (env.sha256 (utf8 Canon.vocabVersion ++ 0 :: canonicalBytes)) := by
  rcases Except.map_eq_ok.mp hbytes with ⟨normalized, hnormalize, rfl⟩
  unfold semanticFingerprint at hfingerprint
  rw [hnormalize] at hfingerprint
  change (if normalized.isEmpty then _ else _) = _ at hfingerprint
  split_ifs at hfingerprint with hempty
  · cases hfingerprint
  · cases hfingerprint
    rfl

/-- The bytes say which digest the metadata has. -/
theorem WellFormed.semId_eq {left right : SemanticMetadata} {leftId rightId : SemanticId}
    {leftHex rightHex : String} (hleft : WellFormed env left leftId leftHex)
    (hright : WellFormed env right rightId rightHex) (hhex : leftHex = rightHex) :
    leftId = rightId ∧ canonicalSemanticBytes env.nfc left =
      canonicalSemanticBytes env.nfc right := by
  subst hhex
  rcases Except.map_eq_ok.mp hleft.bytes with ⟨leftBytes, hleftBytes, hleftHex⟩
  rcases Except.map_eq_ok.mp hright.bytes with ⟨rightBytes, hrightBytes, hrightHex⟩
  have hbytes : leftBytes = rightBytes :=
    Signature.hexChars_injective (String.ofList_injective (hleftHex.trans hrightHex.symm))
  subst hbytes
  refine ⟨?_, hleftBytes.trans hrightBytes.symm⟩
  rw [semId_of_bytes hleftBytes hleft.fingerprint, semId_of_bytes hrightBytes hright.fingerprint]

/-- What an answer without an error says about its request: the digest is that of the metadata that
was sent, and a write was over the etag that the client expected. -/
structure Answers (env : AnnotationEnv) (call : PutCall) (answer : SemanticAnswer) : Prop where
  status : answer.status = 200 ∨ answer.status = 201
  fingerprint : semanticFingerprint env.nfc env.sha256 call.request.metadata =
    .ok (some answer.semanticFingerprint)
  bytes : canonicalSemanticBytes env.nfc answer.metadata =
    canonicalSemanticBytes env.nfc call.request.metadata
  written : answer.status = 201 → answer.metadata = call.request.metadata ∧
    ∃ expected, parseIfMatch call.headers = .ok expected ∧ answer.etag = expected.getD 0 + 1

/-- The revision behind a reply can be read, and it answers the request. -/
theorem readRevision_answers (hlog : ValidLog env vault log)
    (hvalid : ValidAppend env vault append) (hcarries : Carries call append)
    (hreplied : Replied env log append reply) :
    ∃ answer, readRevision env log append.schId reply = .ok answer ∧ Answers env call answer ∧
      answer.etag = reply.etag ∧ (answer.status = 201 ↔ reply.outcome = .appended) := by
  rcases hreplied.found with ⟨hash, hhash, hown, hbytes⟩
  rcases hlog append.schId reply.revisionId hash hhash with
    ⟨writer, -, -, hwriter, hwritten⟩
  have hparsed : env.codec.fromJson hash.metadataJson = some writer.metadata := by
    rw [hwritten.metadataJson, env.codec.fromJson_toJson]
  rcases hwriter.wellFormed.semId_eq hvalid.wellFormed
    (hwritten.canonicalBytesHex.symm.trans hbytes) with ⟨hsem, hsame⟩
  have hstatus : (answerOf reply ⟨hash, writer.metadata⟩).status = 201 ↔
      reply.outcome = .appended := by
    unfold answerOf
    cases reply.outcome <;> simp
  refine ⟨answerOf reply ⟨hash, writer.metadata⟩, ?_, ⟨?_, ?_, ?_, fun hcreated ↦ ⟨?_, ?_⟩⟩, rfl,
    hstatus⟩
  · unfold readRevision revisionFromHash
    rw [hhash]
    dsimp only
    rw [hparsed]
  · unfold answerOf
    cases reply.outcome <;> simp
  · rw [← hcarries.metadata, hvalid.wellFormed.fingerprint, ← hsem, ← hwritten.semId]
    rfl
  · rw [← hcarries.metadata]
    exact hsame
  · have happended := hown (hstatus.mp hcreated)
    rw [happended.metadataJson, env.codec.fromJson_toJson, Option.some_inj] at hparsed
    rw [← hcarries.metadata, hparsed]
    rfl
  · exact ⟨append.expectedEtag, hcarries.expected, hreplied.etag (hstatus.mp hcreated)⟩

/-! ## What every run keeps -/

/-- What is known of a `PUT` in flight. -/
def StageKnown (env : AnnotationEnv) (state : AnnotationState) (call : PutCall) :
    PutStage → Prop
  | .appending append => ValidAppend env state.vault append ∧ Carries call append
  | .reading append reply => ValidAppend env state.vault append ∧ Carries call append ∧
    Replied env state.log append reply

/-- The etag that an answer reports for a write to the schema. -/
def writtenEtag (schId : SchemaId) (entry : PutCall × Except AnnotationError SemanticAnswer) :
    Option ℕ :=
  match entry.2 with
  | .error _ => none
  | .ok answer =>
    if (DigestId.parse entry.1.schId : Option SchemaId) = some schId ∧ answer.status = 201 then
      some answer.etag
    else none

/-- The etag that a write to the schema is still going to report. -/
def pendingEtag (schId : SchemaId) (entry : PutCall × PutStage) : Option ℕ :=
  match entry.2 with
  | .appending _ => none
  | .reading append reply =>
    if append.schId = schId ∧ reply.outcome = .appended then some reply.etag else none

/-- The etags of all writes to a schema. -/
def AnnotationState.etags (state : AnnotationState) (schId : SchemaId) : List ℕ :=
  state.answers.filterMap (writtenEtag schId) ++ state.inFlight.filterMap (pendingEtag schId)

structure AnnotationInv (env : AnnotationEnv) (state : AnnotationState) : Prop where
  listable : Listable env.json state.vault
  log : ValidLog env state.vault state.log
  inFlight : ∀ entry ∈ state.inFlight, StageKnown env state entry.1 entry.2
  answers : ∀ entry ∈ state.answers, ∀ answer, entry.2 = .ok answer → Answers env entry.1 answer
  etags : ∀ schId, (state.etags schId).Perm (List.range' 1 (currentEtag state.log schId))

variable {state after : AnnotationState} {position : ℕ}

theorem annotationInv_empty (env : AnnotationEnv) : AnnotationInv env .empty where
  listable := listable_reachable .refl
  log _ _ _ hhash := by cases hhash
  inFlight _ hentry := by cases hentry
  answers _ hentry := by cases hentry
  etags _ := .refl _

theorem StageKnown.keeps {stage : PutStage} (hknown : StageKnown env state call stage)
    (hkeeps : Keeps state.vault after.vault)
    (hreplies : ∀ append reply, Replied env state.log append reply →
      Replied env after.log append reply) : StageKnown env after call stage := by
  cases stage with
  | appending append => exact ⟨hknown.1.keeps hkeeps, hknown.2⟩
  | reading append reply => exact ⟨hknown.1.keeps hkeeps, hknown.2.1, hreplies _ _ hknown.2.2⟩

theorem AnnotationInv.vaultStep {event : VaultEvent} {vault : SchemaVault}
    (hinv : AnnotationInv env state) (hplain : plainPublications env.json state.vault event)
    (hstep : (vaultMachine env.json).step state.vault event = some vault) :
    AnnotationInv env { state with vault := vault } := by
  have hkeeps := keeps_step hstep
  exact ⟨hinv.listable.step hplain hstep, hinv.log.keeps hkeeps,
    fun entry hentry ↦ (hinv.inFlight entry hentry).keeps hkeeps fun _ _ hreplied ↦ hreplied,
    hinv.answers, hinv.etags⟩

/-- A `PUT` that ends without a write, or with one that was counted before. -/
theorem AnnotationInv.answer {stage : PutStage} {result : Except AnnotationError SemanticAnswer}
    (hinv : AnnotationInv env state) (hposition : state.inFlight[position]? = some (call, stage))
    (hresult : ∀ answer, result = .ok answer → Answers env call answer)
    (hetag : ∀ schId, writtenEtag schId (call, result) = pendingEtag schId (call, stage)) :
    AnnotationInv env (state.answer position call result) := by
  refine ⟨hinv.listable, hinv.log, fun entry hentry ↦ ?_, fun entry hentry ↦ ?_, fun schId ↦ ?_⟩
  · rcases of_mem_replaceAt hentry with hnew | hold
    · cases hnew
    · exact (hinv.inFlight entry hold).keeps (.refl _) fun _ _ hreplied ↦ hreplied
  · rcases List.mem_append.mp hentry with hold | hnew
    · exact hinv.answers entry hold
    · rw [List.mem_singleton] at hnew
      subst hnew
      exact hresult
  · have hpending := filterMap_pending hposition (pendingEtag schId)
    have hanswers : (state.answers ++ [(call, result)]).filterMap (writtenEtag schId) =
        state.answers.filterMap (writtenEtag schId) ++
          (writtenEtag schId (call, result)).toList := by
      rw [List.filterMap_append]
      rfl
    refine List.Perm.trans ?_ (hinv.etags schId)
    unfold AnnotationState.etags AnnotationState.answer replaceAt
    dsimp only
    rw [hanswers, hetag, List.append_assoc, Option.toList_none, List.nil_append]
    exact (hpending.append_left _).symm

/-- The script has run for a `PUT`, whose answer is read next. -/
theorem AnnotationInv.replied (hinv : AnnotationInv env state)
    (hposition : state.inFlight[position]? = some (call, .appending append))
    (hlog : ValidLog env state.vault next)
    (hreplies : ∀ other reply, Replied env state.log other reply → Replied env next other reply)
    (hreplied : Replied env next append reply)
    (hetags : ∀ schId, ((pendingEtag schId (call, .reading append reply)).toList ++
      List.range' 1 (currentEtag state.log schId)).Perm (List.range' 1 (currentEtag next schId))) :
    AnnotationInv env { state with
      log := next
      inFlight := replaceAt state.inFlight position (some (call, .reading append reply)) } := by
  rcases hinv.inFlight _ (List.mem_of_getElem? hposition) with ⟨hvalid, hcarries⟩
  refine ⟨hinv.listable, hlog, fun entry hentry ↦ ?_, hinv.answers, fun schId ↦ ?_⟩
  · rcases of_mem_replaceAt hentry with hnew | hold
    · obtain rfl := Option.some.inj hnew
      exact ⟨hvalid, hcarries, hreplied⟩
    · exact (hinv.inFlight entry hold).keeps (.refl _) hreplies
  · have hpending := filterMap_pending hposition (pendingEtag schId)
    have hinFlight : (replaceAt state.inFlight position
        (some (call, .reading append reply))).filterMap (pendingEtag schId) =
          (pendingEtag schId (call, .reading append reply)).toList ++
            (state.inFlight.eraseIdx position).filterMap (pendingEtag schId) := by
      unfold replaceAt
      rw [List.filterMap_append]
      rfl
    have hold := hinv.etags schId
    unfold AnnotationState.etags at hold ⊢
    dsimp only
    rw [hinFlight]
    refine List.Perm.trans ?_ ((hold.append_left _).trans (hetags schId))
    refine List.Perm.trans ?_ (List.perm_append_comm_assoc _ _ _)
    exact (hpending.symm.append_left _).append_left _

/-- The append of a `PUT` in flight runs the script. -/
theorem AnnotationInv.appendStep {healthy : Bool} (hinv : AnnotationInv env state)
    (hposition : state.inFlight[position]? = some (call, .appending append))
    (hfresh : mintsFresh state.log append) :
    AnnotationInv env (state.append env position call append healthy) := by
  have hfailed (error : AnnotationError) :
      AnnotationInv env (state.answer position call (.error error)) :=
    hinv.answer hposition (fun answer hanswer ↦ by cases hanswer) fun _ ↦ rfl
  rcases hinv.inFlight _ (List.mem_of_getElem? hposition) with ⟨hvalid, hcarries⟩
  unfold AnnotationState.append
  cases healthy with
  | false => exact hfailed .degraded
  | true =>
      rw [Bool.not_true, if_neg Bool.false_ne_true]
      rcases appendScript_spec env state.log append with
        ⟨hsame, hreplay, -⟩ | ⟨hreason, hexpected, happended⟩
      · cases hscript : appendScript env.codec state.log append with
        | mk result log =>
            rw [hscript] at hsame hreplay
            dsimp only at hsame hreplay ⊢
            subst hsame
            cases result with
            | error error => exact hfailed _
            | ok reply =>
                rcases hreplay reply rfl with ⟨houtcome, hash, hhash, hbytes⟩
                have hreal : reply.outcome ≠ .appended := by
                  rw [houtcome]
                  decide
                refine hinv.replied hposition hinv.log (fun _ _ hreplied ↦ hreplied)
                  ⟨⟨hash, hhash, fun happended ↦ absurd happended hreal, hbytes⟩,
                    fun happended ↦ absurd happended hreal⟩ fun schId ↦ ?_
                unfold pendingEtag
                dsimp only
                rw [if_neg fun hboth ↦ hreal hboth.2]
                exact .refl _
      · rw [happended]
        dsimp only
        refine hinv.replied hposition (hinv.log.appendWrites hvalid hreason)
          (fun _ _ hreplied ↦ hreplied.appendWrites hfresh) ?_ fun schId ↦ ?_
        · refine ⟨⟨newRevision env.codec state.log append, ?_,
            fun _ ↦ writtenBy_newRevision state.log append, rfl⟩, fun _ ↦ ?_⟩
          · rw [appendWrites_revisions_self, Function.update_self]
          · rw [hexpected]
        · unfold pendingEtag
          dsimp only
          by_cases hschema : append.schId = schId
          · subst hschema
            rw [if_pos ⟨rfl, rfl⟩, currentEtag_appendWrites_self, List.range'_concat]
            exact List.perm_append_comm.trans (by rw [Nat.one_mul, Nat.add_comm]; exact .refl _)
          · rw [if_neg fun hboth ↦ hschema hboth.1,
              currentEtag_appendWrites_of_ne fun heq ↦ hschema heq.symm]
            exact .refl _

/-- The revision behind a reply is read for the answer. -/
theorem AnnotationInv.readStep (hinv : AnnotationInv env state)
    (hposition : state.inFlight[position]? = some (call, .reading append reply)) :
    AnnotationInv env
      (state.answer position call (readRevision env state.log append.schId reply)) := by
  rcases hinv.inFlight _ (List.mem_of_getElem? hposition) with ⟨hvalid, hcarries, hreplied⟩
  rcases readRevision_answers hinv.log hvalid hcarries hreplied with
    ⟨answer, hread, hanswers, hetag, hstatus⟩
  refine hinv.answer hposition (fun other hother ↦ ?_) fun schId ↦ ?_
  · rw [hread] at hother
    cases hother
    exact hanswers
  · unfold writtenEtag pendingEtag
    rw [hread]
    dsimp only
    simp only [hcarries.schId, Option.some_inj, hstatus, hetag]

/-- A request is checked, and refused or taken. -/
theorem AnnotationInv.putStep {nowMs : ℤ} {revisionId : RevisionId}
    (hinv : AnnotationInv env state)
    (hstep : (annotationMachine env).step state (.put call nowMs revisionId) = some after) :
    AnnotationInv env after := by
  simp only [annotationMachine] at hstep
  cases hcheck : checkPut env state.vault call nowMs revisionId with
  | error error =>
      rw [hcheck] at hstep
      cases hstep
      refine ⟨hinv.listable, hinv.log, hinv.inFlight, fun entry hentry ↦ ?_, fun schId ↦ ?_⟩
      · rcases List.mem_append.mp hentry with hold | hnew
        · exact hinv.answers entry hold
        · rw [List.mem_singleton] at hnew
          subst hnew
          exact fun answer hanswer ↦ by cases hanswer
      · have hsame := hinv.etags schId
        unfold AnnotationState.etags at hsame ⊢
        dsimp only
        rw [List.filterMap_append]
        exact (List.append_nil (state.answers.filterMap (writtenEtag schId))).symm ▸ hsame
  | ok append =>
      rw [hcheck] at hstep
      cases hstep
      refine ⟨hinv.listable, hinv.log, fun entry hentry ↦ ?_, hinv.answers, fun schId ↦ ?_⟩
      · rcases List.mem_append.mp hentry with hold | hnew
        · exact hinv.inFlight entry hold
        · rw [List.mem_singleton] at hnew
          subst hnew
          exact checkPut_eq_ok hinv.listable hcheck
      · have hsame := hinv.etags schId
        unfold AnnotationState.etags at hsame ⊢
        dsimp only
        rw [List.filterMap_append]
        exact (List.append_nil (state.inFlight.filterMap (pendingEtag schId))).symm ▸ hsame

theorem annotationInv_reachable
    (reached : (annotationMachine env).Reachable (mintsRevisions env) state) :
    AnnotationInv env state := by
  refine reached.invariant (annotationInv_empty env) fun state event next hinv hguard hstep ↦ ?_
  cases event with
  | vault event =>
      rcases Option.map_eq_some_iff.mp hstep with ⟨vault, hvault, rfl⟩
      exact hinv.vaultStep hguard hvault
  | put call nowMs revisionId => exact hinv.putStep hstep
  | append position healthy =>
      simp only [annotationMachine] at hstep
      split at hstep
      · rename_i call append hposition
        cases hstep
        exact hinv.appendStep hposition (hguard call append hposition)
      · cases hstep
  | read position =>
      simp only [annotationMachine] at hstep
      split at hstep
      · rename_i call append reply hposition
        cases hstep
        exact hinv.readStep hposition
      · cases hstep

end

end Deblob.Semantic
