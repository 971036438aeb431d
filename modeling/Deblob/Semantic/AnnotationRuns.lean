import Deblob.Cold.PromotedRecord
import Deblob.Semantic.Annotations
import Deblob.Semantic.CanonCodes
import Deblob.Semantic.PathGrammars
import Mathlib.Data.List.DropRight

/-!
# Runs of annotations

A client reads the etag of a schema in a header and sends it back with its own annotation. In every
run, stored annotations stay valid for their schemas, each etag was given to one write over the one
before, and a client only writes over the annotation that it has read.
-/

namespace Deblob.Semantic

open Core Lib Redis
open Canon (canonicalSemanticBytes semanticFingerprint)
open Cold (actorFromHeaders canonicalText draftA isReservedActor jsonKnowing jsonKnowing_readsBack
  numbers promotedA)
open Signature (hexEncode)

/-! ## Etags in headers -/

/-- `insert_etag`: the number in quotes. -/
def etagValue (etag : ℕ) : Option Http.HeaderValue :=
  Http.HeaderValue.fromStr ("\"" ++ toString etag ++ "\"")

theorem trimMatches_quoted {keep : UInt8 → Bool} {first last : UInt8} {middle : Bytes}
    (hfirst : keep first = false) (hlast : keep last = false) :
    trimMatches keep (first :: (middle ++ [last])) = first :: (middle ++ [last]) := by
  unfold trimMatches
  rw [List.dropWhile_cons_of_neg (by simp [hfirst]), ← List.cons_append,
    List.rdropWhile_concat_neg _ _ _ (by simp [hlast])]

/-- The bytes of a number as it is written. -/
def digitBytes (number : ℕ) : Bytes :=
  (Nat.toDigits 10 number).map fun char ↦ UInt8.ofNat char.toNat

theorem isDigit_toDigits {number : ℕ} {char : Char} (hchar : char ∈ Nat.toDigits 10 number) :
    48 ≤ char.toNat ∧ char.toNat ≤ 57 := by
  have hdigit := Nat.isDigit_of_mem_toDigits (by decide) (by decide) hchar
  rw [Char.isDigit, Bool.and_eq_true, decide_eq_true_eq, decide_eq_true_eq] at hdigit
  exact ⟨UInt32.le_iff_toNat_le.mp hdigit.1, UInt32.le_iff_toNat_le.mp hdigit.2⟩

theorem mem_digitBytes {number : ℕ} {byte : UInt8} (hbyte : byte ∈ digitBytes number) :
    48 ≤ byte ∧ byte ≤ 57 := by
  rcases List.mem_map.mp hbyte with ⟨char, hchar, rfl⟩
  have hbounds := isDigit_toDigits hchar
  have hsame : (UInt8.ofNat char.toNat).toNat = char.toNat := by
    rw [UInt8.toNat_ofNat']
    omega
  rw [UInt8.le_iff_toNat_le, UInt8.le_iff_toNat_le, hsame]
  exact hbounds

/-- A number below the limit is read as it was written. -/
theorem parseUsize_digitBytes {number : ℕ} (hlimit : number < 2 ^ 64) :
    Http.parseUsize (digitBytes number) = some number := by
  have hfold : (digitBytes number).foldl
      (fun number digit ↦ 10 * number + (digit.toNat - 48)) 0 = number := by
    calc (digitBytes number).foldl (fun number digit ↦ 10 * number + (digit.toNat - 48)) 0
        = Nat.ofDigitChars 10 (Nat.toDigits 10 number) 0 := by
          rw [digitBytes, List.foldl_map, Nat.ofDigitChars_eq_foldl]
          apply List.foldl_ext
          intro sofar char hchar
          have hbounds := isDigit_toDigits hchar
          have hsame : (UInt8.ofNat char.toNat).toNat = char.toNat := by
            rw [UInt8.toNat_ofNat']
            omega
          rw [hsame]
          rfl
      _ = number := Nat.ofDigitChars_ten_toDigits
  have hdigits : (digitBytes number).all (fun digit ↦ 48 ≤ digit && digit ≤ 57) = true := by
    rw [List.all_eq_true]
    intro digit hdigit
    simpa using mem_digitBytes hdigit
  cases hbytes : digitBytes number with
  | nil =>
      have hempty : Nat.toDigits 10 number = [] := List.map_eq_nil_iff.mp hbytes
      exact absurd hempty (by simp)
  | cons first rest =>
      have hplus : first ≠ 43 := by
        rintro rfl
        have hfirst : (43 : UInt8) ∈ digitBytes number := hbytes ▸ List.mem_cons_self
        exact absurd (mem_digitBytes hfirst).1 (by decide)
      unfold Http.parseUsize
      split
      · rename_i rest heq
        cases heq
        exact absurd rfl hplus
      · rw [← hbytes]
        dsimp only
        rw [hfold, hdigits]
        simpa [hbytes] using hlimit

/-- The bytes of an `ETag` header. -/
def quotedBytes (etag : ℕ) : Bytes := 34 :: (digitBytes etag ++ [34])

theorem utf8_quoted (etag : ℕ) : utf8 ("\"" ++ toString etag ++ "\"") = quotedBytes etag := by
  have htext : "\"" ++ toString etag ++ "\"" =
      String.ofList ('"' :: (Nat.toDigits 10 etag ++ ['"'])) := by
    apply String.toList_inj.mp
    rw [String.toList_append, String.toList_append, Nat.toString_eq_repr, Nat.toList_repr,
      String.toList_ofList]
    simp
  have hascii : ∀ char ∈ '"' :: (Nat.toDigits 10 etag ++ ['"']), char.toNat < 128 := by
    intro char hchar
    rw [List.mem_cons, List.mem_append, List.mem_singleton] at hchar
    rcases hchar with rfl | hdigit | rfl
    · decide
    · have hbounds := isDigit_toDigits hdigit
      omega
    · decide
  rw [htext, Canon.utf8_ofList_ascii hascii, List.map_cons, List.map_append]
  rfl

theorem mem_quotedBytes {etag : ℕ} {byte : UInt8} (hbyte : byte ∈ quotedBytes etag) :
    32 ≤ byte ∧ byte < 127 := by
  rw [quotedBytes, List.mem_cons, List.mem_append, List.mem_singleton] at hbyte
  rcases hbyte with rfl | hdigit | rfl
  · decide
  · have hbounds := mem_digitBytes hdigit
    rw [UInt8.le_iff_toNat_le, UInt8.le_iff_toNat_le] at hbounds
    exact ⟨UInt8.le_iff_toNat_le.mpr (le_trans (by decide) hbounds.1),
      UInt8.lt_iff_toNat_lt.mpr (lt_of_le_of_lt hbounds.2 (by decide))⟩
  · decide

/-- Every number can be sent in an `ETag` header. -/
theorem etagValue_eq_some (etag : ℕ) :
    ∃ value, etagValue etag = some value ∧ value.bytes = quotedBytes etag := by
  have hvalid : (utf8 ("\"" ++ toString etag ++ "\"")).all Http.isValueByte = true := by
    rw [utf8_quoted, List.all_eq_true]
    intro byte hbyte
    have hbounds := mem_quotedBytes hbyte
    have hne : byte ≠ 127 := by
      rintro rfl
      exact absurd hbounds.2 (by decide)
    simp [Http.isValueByte, hbounds.1, hne]
  exact ⟨⟨_, hvalid⟩, dif_pos hvalid, utf8_quoted etag⟩

/-- The quotes around a number are taken off. -/
theorem trim_quotedBytes (etag : ℕ) : trimMatches (· == 34) (quotedBytes etag) =
    digitBytes etag := by
  have hquotes : ∀ byte ∈ digitBytes etag, ¬ (byte == 34) = true := by
    intro byte hbyte heq
    rw [beq_iff_eq] at heq
    subst heq
    exact absurd (mem_digitBytes hbyte).1 (by decide)
  have hne : digitBytes etag ≠ [] := by simp [digitBytes]
  rcases List.exists_cons_of_ne_nil hne with ⟨first, rest, hfirst⟩
  unfold trimMatches quotedBytes
  have hdrop : (first :: (rest ++ [34])).dropWhile (· == 34) = first :: rest ++ [34] := by
    have hfirstQuote := hquotes first (by simp [hfirst])
    rw [List.dropWhile_cons, if_neg hfirstQuote, List.cons_append]
  rw [List.dropWhile_cons_of_pos (by decide), hfirst, List.cons_append, hdrop, ← hfirst,
    List.rdropWhile_concat_pos _ _ _ (by decide), List.rdropWhile_eq_self_iff]
  exact fun _ ↦ hquotes _ (List.getLast_mem _)

/-- A client that sends an etag back as it got it expects that etag. -/
theorem parseIfMatch_etagValue {headers : Http.HeaderMap} {etag : ℕ} (hlimit : etag < 2 ^ 64)
    (hheader : headers.get ifMatchHeader = etagValue etag) :
    parseIfMatch headers = .ok (some etag) := by
  rcases etagValue_eq_some etag with ⟨value, hvalue, hbytes⟩
  have htext : value.toStr = some (quotedBytes etag) := by
    unfold Http.HeaderValue.toStr
    rw [hbytes, if_pos]
    rw [List.all_eq_true]
    intro byte hbyte
    simp [mem_quotedBytes hbyte]
  have hspaces : trimMatches (fun byte ↦ byte == 32 || byte == 9) (quotedBytes etag) =
      quotedBytes etag := trimMatches_quoted (by decide) (by decide)
  unfold parseIfMatch
  rw [hheader, hvalue]
  dsimp only
  rw [htext, Option.bind_some, hspaces, trim_quotedBytes, parseUsize_digitBytes hlimit]

/-! ## Runs -/

section

variable {env : AnnotationEnv} {first second later : AnnotationState}

/-- A step leaves the log alone, or it runs the script once. -/
theorem log_step {event : AnnotationEvent} (hguard : mintsRevisions env first event)
    (hstep : (annotationMachine env).step first event = some later) :
    later.log = first.log ∨ ∃ append, mintsFresh first.log append ∧
      later.log = (appendScript env.codec first.log append).2 := by
  cases event with
  | vault event =>
      rcases Option.map_eq_some_iff.mp hstep with ⟨vault, -, rfl⟩
      exact .inl rfl
  | put call nowMs revisionId =>
      simp only [annotationMachine] at hstep
      split at hstep <;> cases hstep <;> exact .inl rfl
  | append position healthy =>
      simp only [annotationMachine] at hstep
      split at hstep
      · rename_i call append hposition
        cases hstep
        unfold AnnotationState.append
        cases healthy with
        | false => exact .inl rfl
        | true =>
            rw [Bool.not_true, if_neg Bool.false_ne_true]
            refine .inr ⟨append, hguard call append hposition, ?_⟩
            cases hscript : appendScript env.codec first.log append with
            | mk result log => cases result <;> rfl
      · cases hstep
  | read position =>
      simp only [annotationMachine] at hstep
      split at hstep
      · cases hstep
        exact .inl rfl
      · cases hstep

/-- What happens to the log in a run is a run of the script. -/
theorem log_reachable
    (reached : (annotationMachine env).ReachableFrom (mintsRevisions env) first later) :
    (semMachine env.codec).ReachableFrom mintsFresh first.log later.log := by
  induction reached with
  | refl => exact .refl
  | step _ hguard hstep ih =>
      rcases log_step hguard hstep with hsame | ⟨append, hfresh, hnext⟩
      · exact hsame ▸ ih
      · exact ih.step hfresh (congrArg some hnext.symm)

/-- The pointer of a schema changes with its etag only. -/
theorem active_or_etag_lt {store next : SemStore}
    (reached : (semMachine env.codec).ReachableFrom mintsFresh store next) (schId : SchemaId) :
    next.active schId = store.active schId ∨ currentEtag store schId < currentEtag next schId := by
  induction reached with
  | refl => exact .inl rfl
  | @step state after append earlier _ hstep ih =>
      cases hstep
      rcases appendScript_spec env state append with ⟨hsame, -⟩ | ⟨-, -, happended⟩
      · rw [hsame]
        exact ih
      · rw [happended]
        by_cases hschema : schId = append.schId
        · subst hschema
          have hgrow := (semExtends_reachable earlier).etag append.schId
          rw [currentEtag_appendWrites_self]
          exact .inr (Nat.lt_succ_of_le hgrow)
        · rw [appendWrites_active_of_ne hschema, currentEtag_appendWrites_of_ne hschema]
          exact ih

/-- The schema of a text that was annotated can be read, with the etag that it had. -/
theorem getSemantic_cases (hfirst : (annotationMachine env).Reachable (mintsRevisions env) first)
    (hsecond : (annotationMachine env).ReachableFrom (mintsRevisions env) first second)
    {text : String} {schId : SchemaId} (hparse : DigestId.parse text = some schId) :
    (getSemantic env first.log second.log text = .error .notFound ∧
      first.log.active schId = none) ∨
    ∃ pointer hash metadata, first.log.active schId = some pointer ∧
      first.log.revisions schId pointer.revisionId = some hash ∧
      env.codec.fromJson hash.metadataJson = some metadata ∧
      getSemantic env first.log second.log text =
        .ok ⟨200, pointer.etag, hash.semId, metadata⟩ := by
  unfold getSemantic
  rw [hparse]
  dsimp only
  cases hactive : first.log.active schId with
  | none => exact .inl ⟨rfl, rfl⟩
  | some pointer =>
      rcases (semConsistent_reachable (log_reachable hfirst)).active schId pointer hactive with
        ⟨hash, metadata, hhash, -, hjson, -⟩
      have hkept := (semExtends_reachable (log_reachable hsecond)).revisions schId
        pointer.revisionId hash hhash
      refine .inr ⟨pointer, hash, metadata, rfl, hhash, hjson, ?_⟩
      unfold readRevision revisionFromHash
      dsimp only
      rw [hkept]
      dsimp only
      rw [hjson]
      rfl

end


/-- A revision whose metadata can be read and is valid for its schema as it is stored now; it was
written with a reason, by no reserved actor. -/
structure ValidRevision (env : AnnotationEnv) (vault : SchemaVault) (schId : SchemaId)
    (hash : RevisionHash) (metadata : SemanticMetadata) : Prop where
  parsed : env.codec.fromJson hash.metadataJson = some metadata
  wellFormed : WellFormed env metadata hash.semId hash.canonicalBytesHex
  paths : PathsKnown env vault schId metadata
  reason : hash.reason ≠ ""
  actor : isReservedActor hash.actor = false

theorem ValidLog.validRevision {env : AnnotationEnv} {vault : SchemaVault} {log : SemStore}
    (hlog : ValidLog env vault log) {schId : SchemaId} {id : RevisionId} {hash : RevisionHash}
    (hhash : log.revisions schId id = some hash) :
    ∃ metadata, ValidRevision env vault schId hash metadata := by
  rcases hlog schId id hash hhash with ⟨append, rfl, hreason, hvalid, hwritten⟩
  refine ⟨append.metadata, ⟨?_, ?_, hvalid.paths, hwritten.reason ▸ hreason,
    hwritten.actor ▸ hvalid.actor⟩⟩
  · rw [hwritten.metadataJson, env.codec.fromJson_toJson]
  · rw [hwritten.semId, hwritten.canonicalBytesHex]
    exact hvalid.wellFormed

theorem findSchema_of_read {env : AnnotationEnv} {vault : SchemaVault} {id : SchemaId}
    {record : SchemaRecord} (hread : getSchema env.json vault id = .ok (some record)) :
    findSchema env vault id.asStr = .ok (id, record) := by
  unfold findSchema
  rw [DigestId.parse_asStr]
  dsimp only
  rw [hread]

theorem step_put {env : AnnotationEnv} {state : AnnotationState} {call : PutCall} {nowMs : ℤ}
    {revisionId : RevisionId} {append : AppendCall SemanticMetadata}
    (hcheck : checkPut env state.vault call nowMs revisionId = .ok append) :
    (annotationMachine env).step state (.put call nowMs revisionId) =
      some { state with inFlight := state.inFlight ++ [(call, .appending append)] } := by
  simp only [annotationMachine, hcheck]

theorem step_append {env : AnnotationEnv} {state : AnnotationState} {call : PutCall}
    {append : AppendCall SemanticMetadata} {reply : AppendReply} {log : SemStore}
    (hinFlight : state.inFlight = [(call, .appending append)])
    (hscript : appendScript env.codec state.log append = (.ok reply, log)) :
    (annotationMachine env).step state (.append 0 true) =
      some { state with log := log, inFlight := [(call, .reading append reply)] } := by
  have hposition : state.inFlight[0]? = some (call, .appending append) := by
    rw [hinFlight]
    rfl
  simp only [annotationMachine, hposition]
  unfold AnnotationState.append
  rw [Bool.not_true, if_neg Bool.false_ne_true, hscript]
  dsimp only
  rw [hinFlight]
  rfl

theorem step_read {env : AnnotationEnv} {state : AnnotationState} {call : PutCall}
    {append : AppendCall SemanticMetadata} {reply : AppendReply}
    {result : Except AnnotationError SemanticAnswer}
    (hinFlight : state.inFlight = [(call, .reading append reply)])
    (hresult : readRevision env state.log append.schId reply = result) :
    (annotationMachine env).step state (.read 0) =
      some { state with inFlight := [], answers := state.answers ++ [(call, result)] } := by
  have hposition : state.inFlight[0]? = some (call, .reading append reply) := by
    rw [hinFlight]
    rfl
  simp only [annotationMachine, hposition]
  unfold AnnotationState.answer
  rw [hresult, hinFlight]
  rfl

/-! ## An annotated schema -/

/-- A published schema of the documents with the key `id`. -/
def orderSchema : SchemaRecord :=
  { draftA with
    schemaId := sampleSchema 0
    canonical := canonicalText (.fromNode (numbers ["id"])) }

def orderContext : PublishContext :=
  ⟨promotedA, sampleBucketKey, [], "admin", "reviewed", "0"⟩

def orderVault : SchemaVault :=
  (publishRecord (jsonKnowing orderSchema) .empty orderSchema orderContext).2

def orderRegistries : Registries := ⟨{"cfid_order"}, {"order.created"}⟩

/-- All digests are the same here. -/
def orderEnv (json : MetadataJson) : AnnotationEnv where
  nfc := id
  sha256 _ := .replicate 32 0
  fromStr := readerOf [profileText (.fromNode (numbers ["id"]))]
  registries := orderRegistries
  json := jsonKnowing orderSchema
  metadataJson := json

/-- Headers without an etag, and with the first one. -/
def firstHeaders : Http.HeaderMap := .empty

def nextHeaders : Http.HeaderMap := .ofWire [("if-match", ⟨utf8 "\"1\"", by decide⟩)]

def orderCall (headers : Http.HeaderMap) (metadata : SemanticMetadata) : PutCall :=
  ⟨(sampleSchema 0).asStr, headers, ⟨metadata, none, some "reviewed"⟩⟩

def orderAppend (metadata : SemanticMetadata) (expectedEtag : Option ℕ) (revisionId : String) :
    AppendCall SemanticMetadata where
  schId := sampleSchema 0
  semId := .fromDigest (.replicate 32 0)
  canonicalBytesHex := hexEncode ((canonicalSemanticBytes id metadata).toOption.getD [])
  metadata := metadata
  actor := "api"
  reasonCode := "correction"
  reason := "reviewed"
  recordedAt := 0
  effectiveFrom := 0
  revisionId := ⟨revisionId⟩
  expectedEtag := expectedEtag

theorem getSchema_order : ∃ record, getSchema (jsonKnowing orderSchema) orderVault
    (sampleSchema 0) = .ok (some record) ∧ record.canonicalizer = Monoid.generalizer ∧
      record.canonical = canonicalText (.fromNode (numbers ["id"])) := by
  rcases publishScript_cases SchemaVault.empty.registry
    (publishCall (jsonKnowing orderSchema) orderSchema orderContext) with
    ⟨error, herror⟩ | ⟨version, next, hok, hpublished⟩
  · cases herror
  cases hok
  have hplain : plainPublications (jsonKnowing orderSchema) .empty
      (.publish orderSchema orderContext) :=
    ⟨jsonKnowing_readsBack orderSchema, fun variant hvariant ↦ by cases hvariant⟩
  have hlistable : Listable (jsonKnowing orderSchema) orderVault :=
    (listable_reachable .refl).step hplain rfl
  rcases hlistable.getSchema_eq (hpublished.schemas_of_fresh rfl) (by decide) with
    ⟨record, hread, hrecord⟩
  exact ⟨record, hread, hrecord.canonicalizer, hrecord.canonical⟩

theorem fieldPaths_order (json : MetadataJson) : canonicalFieldPathsFor (orderEnv json).fromStr
    Monoid.generalizer (utf8 (canonicalText (.fromNode (numbers ["id"])))) = .ok {[.key "id"]} := by
  have hnesting : (profileText (.fromNode (numbers ["id"]))).nesting < 128 := by decide +kernel
  have hreads : ReadsText (orderEnv json).fromStr 128
      (profileText (.fromNode (numbers ["id"]))) := by
    rw [ReadsText, if_pos hnesting]
    simp [orderEnv, readerOf]
  rw [Cold.utf8_canonicalText]
  refine (monoidFieldPaths_eq_ok hreads).mpr ⟨hnesting, fun path ↦ ?_⟩
  rw [Finset.mem_singleton]
  cases path with
  | nil => simp [IsMonoidPath]
  | cons segment path =>
      cases segment with
      | wildcard =>
          simp [IsMonoidPath, Monoid.FieldNode.fromNode, Monoid.FieldNode.identity, numbers]
      | key key =>
          simp [IsMonoidPath, Monoid.FieldNode.fromNode, lookup_collectMap,
            Monoid.FieldNode.fromFields, Monoid.FieldNode.identity, numbers]
          intro _ hpath
          cases path with
          | nil => rfl
          | cons segment path => cases segment <;> simp [IsMonoidPath] at hpath

/-- Both sample annotations pass the checks. -/
theorem checkPut_order (json : MetadataJson) {metadata : SemanticMetadata}
    {headers : Http.HeaderMap} {expectedEtag : Option ℕ} (revisionId : String)
    (hmetadata : metadata = sampleSubject ∨ metadata = sampleOther)
    (hheaders : (headers = firstHeaders ∧ expectedEtag = none) ∨
      (headers = nextHeaders ∧ expectedEtag = some 1)) :
    checkPut (orderEnv json) orderVault (orderCall headers metadata) 0 ⟨revisionId⟩ =
      .ok (orderAppend metadata expectedEtag revisionId) := by
  rcases getSchema_order with ⟨record, hread, hcanonicalizer, hcanonical⟩
  have hfound : findSchema (orderEnv json) orderVault (orderCall headers metadata).schId =
      .ok (sampleSchema 0, record) :=
    findSchema_of_read hread
  have hvocab : validateMetadata (orderEnv json).registries metadata = .ok () := by
    change validateMetadata orderRegistries metadata = .ok ()
    rcases hmetadata with rfl | rfl <;> decide
  have hpaths : validatePaths metadata {[.key "id"]} = .ok () := by
    rcases hmetadata with rfl | rfl <;> rfl
  have hetag : parseIfMatch headers = .ok expectedEtag := by
    rcases hheaders with ⟨rfl, rfl⟩ | ⟨rfl, rfl⟩ <;> rfl
  have hactor : actorFromHeaders headers = "api" := by
    rcases hheaders with ⟨rfl, -⟩ | ⟨rfl, -⟩ <;> rfl
  have hbytes : canonicalSemanticBytes id metadata =
      .ok ((canonicalSemanticBytes id metadata).toOption.getD []) := by
    rcases hmetadata with rfl | rfl <;> rfl
  have hfingerprint : semanticFingerprint id (fun _ ↦ .replicate 32 0) metadata =
      .ok (some (.fromDigest (.replicate 32 0))) := by
    rcases hmetadata with rfl | rfl <;> rfl
  unfold checkPut
  refine Except.bind_eq_ok.mpr ⟨_, hfound, ?_⟩
  refine Except.check_bind_eq_ok.mpr ⟨mapError_eq_ok.mpr hvocab, ?_⟩
  refine Except.bind_eq_ok.mpr ⟨{[.key "id"]}, mapError_eq_ok.mpr ?_, ?_⟩
  · dsimp only
    rw [hcanonicalizer, hcanonical]
    exact fieldPaths_order json
  refine Except.check_bind_eq_ok.mpr ⟨hpaths, ?_⟩
  refine Except.bind_eq_ok.mpr ⟨_, mapError_eq_ok.mpr hbytes, ?_⟩
  refine Except.bind_eq_ok.mpr ⟨_, mapError_eq_ok.mpr hfingerprint, ?_⟩
  refine Except.bind_eq_ok.mpr ⟨_, rfl, ?_⟩
  refine Except.bind_eq_ok.mpr ⟨_, hetag, ?_⟩
  unfold orderAppend
  rw [← hactor]
  rfl

/-! The state after one annotation, and after a second `PUT` over it was checked. -/

def orderLog (json : MetadataJson) : SemStore :=
  appendWrites (orderEnv json).codec .empty (orderAppend sampleSubject none "first")

def orderReply : AppendReply := ⟨⟨"first"⟩, .fromDigest (.replicate 32 0), 1, .appended⟩

def orderAnswer : SemanticAnswer := ⟨201, 1, .fromDigest (.replicate 32 0), sampleSubject⟩

def orderAnnotated (json : MetadataJson) : AnnotationState where
  vault := orderVault
  log := orderLog json
  inFlight := []
  answers := [(orderCall firstHeaders sampleSubject, .ok orderAnswer)]

def orderNext (json : MetadataJson) : AnnotationState :=
  { orderAnnotated json with
    inFlight := [(orderCall nextHeaders sampleOther,
      .appending (orderAppend sampleOther (some 1) "next"))] }

theorem revisions_order (json : MetadataJson) :
    (orderLog json).revisions (sampleSchema 0) ⟨"first"⟩ =
      some (newRevision (orderEnv json).codec .empty (orderAppend sampleSubject none "first")) := by
  change (appendWrites (orderEnv json).codec .empty
    (orderAppend sampleSubject none "first")).revisions
      (orderAppend sampleSubject none "first").schId _ = _
  rw [appendWrites_revisions_self]
  exact Function.update_self _ _ _

theorem active_order (json : MetadataJson) : (orderLog json).active (sampleSchema 0) =
    some (newPointer (orderEnv json).codec .empty (orderAppend sampleSubject none "first")) := by
  change (appendWrites (orderEnv json).codec .empty (orderAppend sampleSubject none "first")).active
    (orderAppend sampleSubject none "first").schId = _
  exact appendWrites_active_self

theorem currentEtag_order (json : MetadataJson) :
    currentEtag (orderLog json) (sampleSchema 0) = 1 := by
  unfold currentEtag
  rw [active_order json]
  rfl

theorem readRevision_order (json : MetadataJson) (outcome : AppendOutcome) :
    readRevision (orderEnv json) (orderLog json) (sampleSchema 0)
      ⟨⟨"first"⟩, .fromDigest (.replicate 32 0), 1, outcome⟩ =
        .ok (answerOf ⟨⟨"first"⟩, .fromDigest (.replicate 32 0), 1, outcome⟩
          ⟨newRevision (orderEnv json).codec .empty (orderAppend sampleSubject none "first"),
            sampleSubject⟩) := by
  unfold readRevision revisionFromHash
  rw [revisions_order json]
  dsimp only
  rw [newRevision, (orderEnv json).codec.fromJson_toJson]
  rfl

/-- Its bytes are new, and the etag is the expected one. -/
theorem appendScript_order (json : MetadataJson) :
    (appendScript (orderEnv json).codec (orderLog json)
      (orderAppend sampleOther (some 1) "next")).1 =
        .ok ⟨⟨"next"⟩, .fromDigest (.replicate 32 0), 2, .appended⟩ := by
  have hbytes : (orderAppend sampleSubject none "first").canonicalBytesHex ≠
      (orderAppend sampleOther (some 1) "next").canonicalBytesHex := by
    decide +kernel
  have hreplayed : replayed (orderLog json) (orderAppend sampleOther (some 1) "next") = none := by
    unfold replayed
    change Option.filter _ ((orderLog json).active (sampleSchema 0)) = none
    rw [active_order json, Option.filter_some, if_neg]
    change ¬ ((orderLog json).revisions (sampleSchema 0) ⟨"first"⟩).any _ = true
    rw [revisions_order json]
    simpa [newRevision] using hbytes
  unfold appendScript
  rw [hreplayed]
  dsimp only
  change (if (orderAppend sampleOther (some 1) "next").reason = "" then _
    else if 1 ≠ currentEtag (orderLog json) (sampleSchema 0) then _ else _ : _ × SemStore).1 = _
  rw [currentEtag_order json, if_neg (by decide), if_neg (by decide)]
  rfl

theorem orderAnnotated_reachable (json : MetadataJson) :
    (annotationMachine (orderEnv json)).Reachable (mintsRevisions (orderEnv json))
      (orderAnnotated json) := by
  have hpublish : (annotationMachine (orderEnv json)).step .empty
      (.vault (.publish orderSchema orderContext)) = some ⟨orderVault, .empty, [], []⟩ := rfl
  have hput := @step_put (orderEnv json) ⟨orderVault, .empty, [], []⟩ _ _ _ _
    (checkPut_order json "first" (.inl rfl) (.inl ⟨rfl, rfl⟩))
  have hscript : appendScript (orderEnv json).codec .empty
      (orderAppend sampleSubject none "first") = (.ok orderReply, orderLog json) := rfl
  have happend := @step_append (orderEnv json) ⟨orderVault, .empty, [(orderCall firstHeaders
    sampleSubject, .appending (orderAppend sampleSubject none "first"))], []⟩ _ _ _ _ rfl hscript
  have hanswer : readRevision (orderEnv json) (orderLog json) (sampleSchema 0) orderReply =
      .ok orderAnswer := readRevision_order json .appended
  have hread := @step_read (orderEnv json) ⟨orderVault, orderLog json, [(orderCall firstHeaders
    sampleSubject, .reading (orderAppend sampleSubject none "first") orderReply)], []⟩
    _ _ _ _ rfl hanswer
  refine .step (.step (.step (.step .refl ?_ hpublish) ?_ hput) ?_ happend) ?_ hread
  · exact ⟨jsonKnowing_readsBack orderSchema, fun variant hvariant ↦ by cases hvariant⟩
  · trivial
  · rintro call append ⟨⟩
    rfl
  · trivial

theorem orderNext_reachable (json : MetadataJson) :
    (annotationMachine (orderEnv json)).ReachableFrom (mintsRevisions (orderEnv json))
      (orderAnnotated json) (orderNext json) := by
  refine .step .refl ?_ (step_put (checkPut_order json "next" (.inr rfl) (.inr ⟨rfl, rfl⟩)))
  trivial

/-! ## Main results -/

/-- Every revision that is ever stored stays valid for its schema, and a read of an annotated schema
always answers with a valid one, also while others write between its two steps. -/
theorem annotations_valid (env : AnnotationEnv) (first second : AnnotationState)
    (hfirst : (annotationMachine env).Reachable (mintsRevisions env) first)
    (hsecond : (annotationMachine env).ReachableFrom (mintsRevisions env) first second)
    (schId : SchemaId) :
    (∀ id hash, second.log.revisions schId id = some hash →
      ∃ metadata, ValidRevision env second.vault schId hash metadata) ∧
    ∀ text, DigestId.parse text = some schId →
      (getSemantic env first.log second.log text = .error .notFound ∧
        first.log.active schId = none) ∨
      ∃ answer hash, getSemantic env first.log second.log text = .ok answer ∧
        answer.etag = currentEtag first.log schId ∧ answer.semanticFingerprint = hash.semId ∧
        ValidRevision env second.vault schId hash answer.metadata := by
  have hlog := (annotationInv_reachable (hfirst.trans hsecond)).log
  refine ⟨fun id hash hhash ↦ hlog.validRevision hhash, fun text hparse ↦ ?_⟩
  rcases getSemantic_cases hfirst hsecond hparse with
    hnone | ⟨pointer, hash, metadata, hactive, hhash, hjson, hread⟩
  · exact .inl hnone
  have hkept := (semExtends_reachable (log_reachable hsecond)).revisions schId
    pointer.revisionId hash hhash
  rcases hlog.validRevision hkept with ⟨stored, hvalid⟩
  obtain rfl := Option.some.inj (hvalid.parsed.symm.trans hjson)
  refine .inr ⟨_, hash, hread, ?_, rfl, hvalid⟩
  unfold currentEtag
  rw [hactive]
  rfl

/-- The revision of the first annotation is valid. -/
theorem annotations_valid_order : ∃ json : MetadataJson,
    json.toJson sampleSubject = sampleSubjectJson ∧
      ∃ hash metadata, (orderLog json).revisions (sampleSchema 0) ⟨"first"⟩ = some hash ∧
        ValidRevision (orderEnv json) orderVault (sampleSchema 0) hash metadata := by
  rcases exists_sampleJson with ⟨json, hsubject, -⟩
  rcases (annotations_valid (orderEnv json) (orderAnnotated json) (orderAnnotated json)
    (orderAnnotated_reachable json) .refl (sampleSchema 0)).1 ⟨"first"⟩ _ (revisions_order json)
    with ⟨metadata, hvalid⟩
  exact ⟨json, hsubject, _, metadata, revisions_order json, hvalid⟩

/-- The etags of a schema are counted: each number up to the one that it has now was given to one
write, over the number before it, which the client of that write expected. What a client is told is
the digest of what it sent. -/
theorem annotations_counted (env : AnnotationEnv) (state : AnnotationState)
    (hstate : (annotationMachine env).Reachable (mintsRevisions env) state) :
    (∀ entry ∈ state.answers, ∀ answer, entry.2 = .ok answer → Answers env entry.1 answer) ∧
    ∀ schId, (state.etags schId).Perm (List.range' 1 (currentEtag state.log schId)) :=
  ⟨(annotationInv_reachable hstate).answers, (annotationInv_reachable hstate).etags⟩

/-- The first annotation has the first etag. -/
theorem annotations_counted_order : ∃ json : MetadataJson,
    json.toJson sampleSubject = sampleSubjectJson ∧
      Answers (orderEnv json) (orderCall firstHeaders sampleSubject) orderAnswer ∧
      ((orderAnnotated json).etags (sampleSchema 0)).Perm [1] := by
  rcases exists_sampleJson with ⟨json, hsubject, -⟩
  rcases annotations_counted (orderEnv json) (orderAnnotated json) (orderAnnotated_reachable json)
    with ⟨hanswers, hetags⟩
  refine ⟨json, hsubject, hanswers _ List.mem_cons_self _ rfl, ?_⟩
  have hone := hetags (sampleSchema 0)
  rw [show currentEtag (orderAnnotated json).log (sampleSchema 0) = 1 from
    currentEtag_order json] at hone
  exact hone

/-- A client that sends the etag back which it read writes over the annotation that it read, or it
writes nothing; it is told of a conflict only if there was another write. -/
theorem put_over_read (env : AnnotationEnv) (first second later : AnnotationState)
    (hfirst : (annotationMachine env).Reachable (mintsRevisions env) first)
    (hsecond : (annotationMachine env).ReachableFrom (mintsRevisions env) first second)
    (hlater : (annotationMachine env).ReachableFrom (mintsRevisions env) second later)
    (call : PutCall) (append : AppendCall SemanticMetadata) (shown : SemanticAnswer)
    (hread : getSemantic env first.log second.log call.schId = .ok shown)
    (hlimit : shown.etag < 2 ^ 64)
    (hheader : call.headers.get ifMatchHeader = etagValue shown.etag)
    (hinFlight : (call, PutStage.appending append) ∈ later.inFlight) :
    (∀ reply, (appendScript env.codec later.log append).1 = .ok reply →
      reply.outcome = .appended →
        later.log.active append.schId = first.log.active append.schId ∧
        activeMetadata env.codec later.log append.schId = some shown.metadata ∧
        activeMetadata env.codec (appendScript env.codec later.log append).2 append.schId =
          some call.request.metadata) ∧
    ∀ current, (appendScript env.codec later.log append).1 = .error (.etagConflict current) →
      shown.etag < current := by
  have hrun := hsecond.trans hlater
  have hknown := (annotationInv_reachable (hfirst.trans hrun)).inFlight _ hinFlight
  rcases hknown with ⟨-, hcarries⟩
  have hexpected : append.expected = shown.etag := by
    have hsent := parseIfMatch_etagValue hlimit hheader
    rw [hcarries.expected] at hsent
    rw [AppendCall.expected, Except.ok.inj hsent, Option.getD_some]
  rcases getSemantic_cases hfirst hsecond hcarries.schId with
    ⟨hnone, -⟩ | ⟨pointer, hash, metadata, hactive, hhash, hjson, hshown⟩
  · rw [hread] at hnone
    cases hnone
  rw [hread] at hshown
  cases hshown
  change append.expected = pointer.etag at hexpected
  have hetag : currentEtag first.log append.schId = pointer.etag := by
    unfold currentEtag
    rw [hactive]
    rfl
  have hgrow := (semExtends_reachable (log_reachable hrun)).etag append.schId
  have hkept := (semExtends_reachable (log_reachable hrun)).revisions append.schId
    pointer.revisionId hash hhash
  rcases appendScript_spec env later.log append with
    ⟨-, hreplay, hrefused⟩ | ⟨-, hcurrent, happended⟩
  · refine ⟨fun reply hreply hreal ↦ ?_, fun current hconflict ↦ ?_⟩
    · rw [(hreplay reply hreply).1] at hreal
      cases hreal
    · rcases hrefused current hconflict with ⟨rfl, hne⟩
      exact lt_of_le_of_ne (hetag ▸ hgrow) (hexpected ▸ hne)
  · have hsameActive : later.log.active append.schId = first.log.active append.schId := by
      rcases active_or_etag_lt (log_reachable hrun) append.schId with hsame | hlt
      · exact hsame
      · omega
    refine ⟨fun reply hreply _ ↦ ⟨hsameActive, ?_, ?_⟩, fun current hconflict ↦ ?_⟩
    · unfold activeMetadata
      rw [hsameActive, hactive, Option.bind_some, hkept, Option.bind_some, hjson]
    · rw [happended, activeMetadata_appendWrites, if_pos rfl, hcarries.metadata]
    · rw [happended] at hconflict
      cases hconflict

/-- A client that read the first annotation writes the second one over it. -/
theorem put_over_read_order : ∃ json : MetadataJson,
    json.toJson sampleSubject = sampleSubjectJson ∧ json.toJson sampleOther = sampleOtherJson ∧
      activeMetadata (orderEnv json).codec (orderLog json) (sampleSchema 0) = some sampleSubject ∧
      activeMetadata (orderEnv json).codec (appendScript (orderEnv json).codec (orderLog json)
        (orderAppend sampleOther (some 1) "next")).2 (sampleSchema 0) = some sampleOther := by
  rcases exists_sampleJson with ⟨json, hsubject, hother⟩
  have hshown : getSemantic (orderEnv json) (orderLog json) (orderLog json)
      (sampleSchema 0).asStr = .ok ⟨200, 1, .fromDigest (.replicate 32 0), sampleSubject⟩ := by
    unfold getSemantic
    rw [DigestId.parse_asStr]
    dsimp only
    rw [active_order json]
    exact readRevision_order json .alreadyActive
  have hheader : nextHeaders.get ifMatchHeader = etagValue 1 := by
    decide +kernel
  rcases (put_over_read (orderEnv json) (orderAnnotated json) (orderAnnotated json)
    (orderNext json) (orderAnnotated_reachable json) .refl (orderNext_reachable json)
    (orderCall nextHeaders sampleOther) (orderAppend sampleOther (some 1) "next") _ hshown
    (by decide) hheader List.mem_cons_self).1 _ (appendScript_order json) rfl with
    ⟨-, hbefore, hafter⟩
  exact ⟨json, hsubject, hother, hbefore, hafter⟩

end Deblob.Semantic
