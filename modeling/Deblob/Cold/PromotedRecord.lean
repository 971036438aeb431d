import Deblob.Cold.PromoteResolve
import Deblob.Redis.SchemaRecords
import Deblob.Semantic.CanonicalTexts

/-!
# The record that a promotion returns

A promotion makes a record from the candidate's profile and the caller's family, publishes it, and
returns it with the version of the publication. A schema that was published before keeps its record,
so the returned family is the stored one only if the caller chose that family.
-/

namespace Deblob.Cold

open Core Lib Fingerprint Redis
open Deblob.Monoid (Profile generalizer)
open Umbrella (Value)

inductive FamilyChoice where
  | new
  | existing (id : FamilyId)

/-- The request body of a promotion. -/
structure PromoteBody where
  family : FamilyChoice
  name : Option String
  reason : String

/-- `valueProfiles` captures and stores the value profile of a schema, if a store is wired. -/
structure Promoter where
  policy : PromotionPolicy
  structuralSimhash : String → Option ℕ
  valueProfiles : Option
    (SchemaId → String → CandidateId → Profile → ℤ → Except String ValueProfileSummary)

/-- What a promotion takes from its surroundings: the clock at three places, a fresh family, and the
order in which the recorded shapes are returned. -/
structure PromoteMoment where
  checkedMs : ℤ
  capturedMs : ℤ
  publishedMs : String
  freshFamily : FamilyId
  members : List String

inductive PromoteError where
  | notFound
  | notProvisional (state : CandidateState)
  | belowPolicy
  | valueProfile (message : String)
  | publish (error : PublishError)

/-- The family to publish under. -/
def FamilyChoice.id (fresh : FamilyId) : FamilyChoice → FamilyId
  | .new => fresh
  | .existing id => id

def textOrNull : Option String → Value
  | some text => .string text
  | none => .null

def provenanceOf (id : CandidateId) (candidate : CandidateRecord Profile) (name : Option String)
    (actor : String) : Value :=
  .object [("candidate_id", .string id.asStr),
    ("first_seen_ms", .number (.literal (toString candidate.firstSeenMs))),
    ("last_seen_ms", .number (.literal (toString candidate.lastSeenMs))),
    ("name", textOrNull name), ("promoted_by", .string actor),
    ("sample_count", .number (.literal (toString candidate.sampleCount))),
    ("source", textOrNull candidate.source)]

/-- The generalized shape as a text. -/
def canonicalText (profile : Profile) : String :=
  (String.fromUTF8? ⟨profile.generalizedCanonicalJson.toArray⟩).getD ""

theorem utf8_canonicalText (profile : Profile) :
    utf8 (canonicalText profile) = profile.generalizedCanonicalJson := by
  have hwrite := (Semantic.profileText profile).isText_write
  rw [← Semantic.generalizedCanonicalJson_eq] at hwrite
  rcases hwrite.exists_fromUTF8? with ⟨text, hread, hbytes⟩
  have hbuffer : (⟨profile.generalizedCanonicalJson.toArray⟩ : ByteArray) =
      profile.generalizedCanonicalJson.toByteArray :=
    ByteArray.ext List.data_toByteArray.symm
  rw [canonicalText, hbuffer, hread]
  exact hbytes

/-- The schema of a candidate. -/
def schemaOf (sha256 : Bytes → Digest) (candidate : CandidateRecord Profile) : SchemaId :=
  .fromDigest (candidate.profile.generalizedFingerprint sha256)

variable (sha256 : Bytes → Digest) (json : RecordJson) (promoter : Promoter)
  (evidence : EvidenceStore Profile) (vault : SchemaVault) (id : CandidateId) (body : PromoteBody)
  (actor : String) (moment : PromoteMoment)

def captureValueProfile (candidate : CandidateRecord Profile) :
    Except String (Option ValueProfileSummary) :=
  match promoter.valueProfiles with
  | none => .ok none
  | some capture =>
    (capture (schemaOf sha256 candidate) (canonicalText candidate.profile) id candidate.profile
      moment.capturedMs).map some

/-- The record to publish, whose version is a guess. -/
def draftRecord (candidate : CandidateRecord Profile) (captured : Option ValueProfileSummary) :
    SchemaRecord where
  schemaId := schemaOf sha256 candidate
  familyId := body.family.id moment.freshFamily
  version := 0
  canonical := canonicalText candidate.profile
  canonicalizer := generalizer
  provenance := provenanceOf id candidate body.name actor
  valueProfileRef := captured.map (·.profileId)
  valueProfileSummary := captured
  structuralSimhash := promoter.structuralSimhash (canonicalText candidate.profile)

def publishContext (candidate : CandidateRecord Profile) : PublishContext where
  aliasFrom := id
  bucketKey := bucketOf sha256 (generalizedShapeSummary candidate.profile)
  variants := getVariants moment.members
  actor := actor
  reason := body.reason
  nowMs := moment.publishedMs

/-- `set_state` after the publication; its errors are only logged. -/
def stageCandidate : EvidenceStore Profile :=
  match setStateScript evidence id .staged with
  | .ok staged => indexState staged id .staged
  | .error _ => evidence

def promote : Except PromoteError SchemaRecord × EvidenceStore Profile × SchemaVault :=
  match getCandidate evidence id with
  | none => (.error .notFound, evidence, vault)
  | some candidate =>
    if candidate.state ≠ .provisional then
      (.error (.notProvisional candidate.state), evidence, vault)
    else if promoter.policy.check candidate moment.checkedMs = false then
      (.error .belowPolicy, evidence, vault)
    else
      match captureValueProfile sha256 promoter id moment candidate with
      | .error message => (.error (.valueProfile message), evidence, vault)
      | .ok captured =>
        let draft := draftRecord sha256 promoter id body actor moment candidate captured
        match publishRecord json vault draft (publishContext sha256 id body actor moment candidate)
          with
        | (.error error, next) => (.error (.publish error), evidence, next)
        | (.ok version, next) =>
          (.ok { draft with version := version }, stageCandidate evidence id, next)

variable {sha256 json promoter evidence vault id body actor moment}

/-- The publication of a promotion is the one that the pipeline makes. -/
theorem publishCall_draftRecord (candidate : CandidateRecord Profile)
    (captured : Option ValueProfileSummary) :
    publishCall json (draftRecord sha256 promoter id body actor moment candidate captured)
        (publishContext sha256 id body actor moment candidate) =
      promotionCall sha256 id candidate.profile (getVariants moment.members)
        ⟨body.family.id moment.freshFamily,
          json.toString (draftRecord sha256 promoter id body actor moment candidate captured),
          actor, body.reason, moment.publishedMs⟩ := rfl

/-- A promotion that succeeds has published the record it returns, but for the version. -/
theorem promote_eq_ok {record : SchemaRecord} {staged : EvidenceStore Profile} {next : SchemaVault}
    (hpromote : promote sha256 json promoter evidence vault id body actor moment =
      (.ok record, staged, next)) :
    ∃ candidate captured version, getCandidate evidence id = some candidate ∧
      publishRecord json vault (draftRecord sha256 promoter id body actor moment candidate captured)
        (publishContext sha256 id body actor moment candidate) = (.ok version, next) ∧
      record = { draftRecord sha256 promoter id body actor moment candidate captured with
        version := version } := by
  unfold promote at hpromote
  cases hcandidate : getCandidate evidence id with
  | none => simp [hcandidate] at hpromote
  | some candidate =>
      simp only [hcandidate] at hpromote
      by_cases hstate : candidate.state ≠ .provisional
      · rw [if_pos hstate] at hpromote
        cases hpromote
      by_cases hpolicy : promoter.policy.check candidate moment.checkedMs = false
      · rw [if_neg hstate, if_pos hpolicy] at hpromote
        cases hpromote
      rw [if_neg hstate, if_neg hpolicy] at hpromote
      split at hpromote
      · cases hpromote
      · rename_i captured hcaptured
        split at hpromote
        · cases hpromote
        · rename_i version after hpublish
          cases hpromote
          exact ⟨candidate, captured, version, rfl, hpublish, rfl⟩

/-- What a promotion returns is what is stored exactly if its slot fits. -/
theorem promote_tellsTruth_iff
    (reached : (vaultMachine json).Reachable (readsBackEvent json) vault)
    {candidate : CandidateRecord Profile} (hcandidate : getCandidate evidence id = some candidate)
    {record : SchemaRecord} {staged : EvidenceStore Profile} {next : SchemaVault}
    (hpromote : promote sha256 json promoter evidence vault id body actor moment =
      (.ok record, staged, next))
    (hjson : json.ReadsBack { record with version := 0 }) :
    TellsTruth json next record ↔
      SlotFits vault.registry (schemaOf sha256 candidate) (body.family.id moment.freshFamily) := by
  rcases promote_eq_ok hpromote with ⟨found, captured, version, hfound, hpublish, rfl⟩
  obtain rfl : found = candidate := Option.some.inj (hfound.symm.trans hcandidate)
  exact (faithful_reachable reached).published_tellsTruth_iff hjson hpublish

/-- A promotion that passes its checks publishes its draft. -/
theorem promote_ok {candidate : CandidateRecord Profile}
    (hcandidate : getCandidate evidence id = some candidate)
    (hstate : candidate.state = .provisional)
    (hpolicy : promoter.policy.check candidate moment.checkedMs = true)
    {captured : Option ValueProfileSummary}
    (hcaptured : captureValueProfile sha256 promoter id moment candidate = .ok captured)
    {version : ℕ} {next : SchemaVault}
    (hpublish : publishRecord json vault
      (draftRecord sha256 promoter id body actor moment candidate captured)
      (publishContext sha256 id body actor moment candidate) = (.ok version, next)) :
    promote sha256 json promoter evidence vault id body actor moment =
      (.ok { draftRecord sha256 promoter id body actor moment candidate captured with
        version := version }, stageCandidate evidence id, next) := by
  unfold promote
  simp only [hcandidate, hstate, ne_eq, not_true_eq_false, if_false, hpolicy, Bool.true_eq_false,
    hcaptured, hpublish]

/-! ## One shape in two sources -/

/-- JSON strings whose only characters to escape are quotes and backslashes. -/
def quotedText (text : String) : String :=
  "\"" ++ String.ofList (text.toList.flatMap fun char ↦
    if char = '"' ∨ char = '\\' then ['\\', char] else [char]) ++ "\""

def scalarText : Value → String
  | .string text => quotedText text
  | .number (.literal text) => text
  | _ => "null"

def objectText (members : List (String × String)) : String :=
  "\x7b" ++ ",".intercalate (members.map fun member ↦ quotedText member.1 ++ ":" ++ member.2) ++
    "\x7d"

/-- The text of a record without value profile whose provenance holds texts and numbers. -/
def plainRecordText (record : SchemaRecord) : String :=
  let fields := [("schema_id", quotedText record.schemaId.asStr),
    ("family_id", quotedText record.familyId.asStr), ("version", toString record.version),
    ("canonical", quotedText record.canonical),
    ("canonicalizer", quotedText record.canonicalizer),
    ("provenance", objectText ((provenanceEntries record.provenance).map fun entry ↦
      (entry.1, scalarText entry.2))),
    ("semantic", "null"), ("semantic_fingerprint", "null"), ("privacy_class", "null"),
    ("value_profile_ref", "null"), ("value_profile_summary", "null"),
    ("structural_simhash", (record.structuralSimhash.map toString).getD "null")]
  objectText fields

/-- A JSON library that knows one record. -/
def jsonKnowing (known : SchemaRecord) : RecordJson where
  toString := plainRecordText
  fromStr text := if text = plainRecordText known then some known else none
  fromStrValue _ := none

/-- The candidate of `{"a":1}` in the source `billing`. -/
def billingA : CandidateId :=
  .fromDigest (digestOfNat 0x2db1c7616a869a4794622cd8c1939b32301075024e9bd09cc13f585b3922e8b5)

/-- A candidate that has seen `{"a":1}` once. -/
def recordA (id : CandidateId) (source : String) : CandidateRecord Profile :=
  ⟨id, Profile.fromNode (numbers ["a"]), 1, 0, 0, .provisional, some source⟩

def evidenceA : EvidenceStore Profile :=
  upsertCandidate (upsertCandidate .empty (recordA promotedA "orders"))
    (recordA billingA "billing")

def promoterA : Promoter := ⟨⟨1, 0⟩, fun _ ↦ some 442724954264569200, none⟩

/-- A promotion into a new family. -/
def bodyA : PromoteBody := ⟨.new, none, "reviewed"⟩

def momentA (family : String) : PromoteMoment :=
  ⟨0, 0, "0", ⟨family⟩, [encodeVariant (concreteVariant ordersSha256 (numbers ["a"]))]⟩

def ordersFamily : String := "fam_01890a5d-ac96-774b-bcce-b302099a8057"
def billingFamily : String := "fam_01890a5d-ac96-774b-bcce-b302099a8058"

/-- The record that the promotion in the source `orders` publishes. -/
def draftA : SchemaRecord :=
  draftRecord ordersSha256 promoterA promotedA bodyA "admin" (momentA ordersFamily)
    (recordA promotedA "orders") none

/-- The vault after that promotion. -/
def vaultA : SchemaVault :=
  (publishRecord (jsonKnowing draftA) .empty draftA (publishContext ordersSha256 promotedA bodyA
    "admin" (momentA ordersFamily) (recordA promotedA "orders"))).2

/-- What the promotion in the source `billing` publishes. -/
def draftB : SchemaRecord :=
  draftRecord ordersSha256 promoterA billingA bodyA "admin" (momentA billingFamily)
    (recordA billingA "billing") none

def contextB : PublishContext :=
  publishContext ordersSha256 billingA bodyA "admin" (momentA billingFamily)
    (recordA billingA "billing")

/-- The family that a read returns. -/
def storedFamily (json : RecordJson) (vault : SchemaVault) (id : SchemaId) : Option FamilyId :=
  (getSchema json vault id).toOption.join.map SchemaRecord.familyId

theorem storedFamily_of_tellsTruth {record : SchemaRecord} (htruth : TellsTruth json vault record) :
    storedFamily json vault record.schemaId = some record.familyId := by
  rcases htruth with ⟨stored, hget, hfamily, -⟩
  rw [storedFamily, hget, ← hfamily]
  rfl

/-- A schema that is stored already is read under the same family after another publication. -/
theorem storedFamily_publishRecord {record : SchemaRecord} {context : PublishContext}
    (hfaithful : Faithful json vault)
    (hstored : (vault.registry.schemas record.schemaId).isSome) :
    storedFamily json (publishRecord json vault record context).2 record.schemaId =
      storedFamily json vault record.schemaId := by
  have hregistry : (publishRecord json vault record context).2 =
      { vault with registry := (publishScript vault.registry
        (publishCall json record context)).2 } := rfl
  rw [hregistry]
  rcases publishScript_cases vault.registry (publishCall json record context) with
    ⟨error, herror⟩ | ⟨version, next, hok, hpublished⟩
  · rw [herror]
  · rw [hok]
    rcases hfaithful.hash_of_published hpublished with
      ⟨hash, hhash, -, -, ⟨hfresh, -, -⟩ | ⟨old, hold, htext, -, hversion⟩⟩
    · rw [hfresh] at hstored
      cases hstored
    · rw [storedFamily, storedFamily, getSchema, getSchema, hhash, hold]
      simp only [htext, hversion]

theorem isSome_of_tellsTruth {record : SchemaRecord} (htruth : TellsTruth json vault record) :
    (vault.registry.schemas record.schemaId).isSome := by
  rcases htruth with ⟨stored, hget, -⟩
  unfold getSchema at hget
  split at hget
  · cases hget
  · rename_i hash hhash
    rw [hhash]
    rfl

theorem jsonKnowing_readsBack (known : SchemaRecord) : (jsonKnowing known).ReadsBack known := by
  simp [RecordJson.ReadsBack, jsonKnowing]

theorem vaultA_reachable :
    (vaultMachine (jsonKnowing draftA)).Reachable (readsBackEvent (jsonKnowing draftA)) vaultA := by
  have hstep : (vaultMachine (jsonKnowing draftA)).step .empty (.publish draftA (publishContext
      ordersSha256 promotedA bodyA "admin" (momentA ordersFamily)
      (recordA promotedA "orders"))) = some vaultA := rfl
  refine .step .refl ?_ hstep
  exact jsonKnowing_readsBack draftA

theorem getCandidate_evidenceA :
    getCandidate evidenceA promotedA = some (recordA promotedA "orders") ∧
      getCandidate evidenceA billingA = some (recordA billingA "billing") := by
  have hne : promotedA ≠ billingA := by decide +kernel
  rw [evidenceA, getCandidate_upsertCandidate, getCandidate_upsertCandidate,
    getCandidate_upsertCandidate]
  exact ⟨(if_neg hne).trans (if_pos rfl), if_pos rfl⟩

theorem publishRecord_draftA : publishRecord (jsonKnowing draftA) .empty draftA (publishContext
    ordersSha256 promotedA bodyA "admin" (momentA ordersFamily) (recordA promotedA "orders")) =
      (.ok 1, vaultA) := rfl

theorem slotFits_draftA : SlotFits SchemaVault.empty.registry draftA.schemaId draftA.familyId := by
  decide +kernel

/-- The first promotion of a shape tells the truth. -/
theorem promote_tellsTruth_first : ∃ record staged next,
    promote ordersSha256 (jsonKnowing draftA) promoterA evidenceA .empty promotedA bodyA "admin"
        (momentA ordersFamily) = (.ok record, staged, next) ∧
      TellsTruth (jsonKnowing draftA) next record := by
  have hpromote := promote_ok getCandidate_evidenceA.1 rfl rfl rfl publishRecord_draftA
  refine ⟨_, _, _, hpromote, ?_⟩
  exact (promote_tellsTruth_iff .refl getCandidate_evidenceA.1 hpromote
    (jsonKnowing_readsBack draftA)).mpr slotFits_draftA

theorem schemaId_draftB : draftB.schemaId = draftA.schemaId := rfl

/-- The family of the first promotion stays the stored one. -/
theorem storedFamily_draftB :
    storedFamily (jsonKnowing draftA)
      (publishRecord (jsonKnowing draftA) vaultA draftB contextB).2 draftB.schemaId =
        some ⟨ordersFamily⟩ := by
  have hfaithful := faithful_reachable vaultA_reachable
  have hfirst : TellsTruth (jsonKnowing draftA) vaultA { draftA with version := 1 } :=
    ((faithful_empty _).published_tellsTruth_iff (jsonKnowing_readsBack draftA)
      publishRecord_draftA).mpr slotFits_draftA
  have hread := storedFamily_of_tellsTruth hfirst
  have hsome := isSome_of_tellsTruth hfirst
  have hstored : (vaultA.registry.schemas draftB.schemaId).isSome := by
    rw [schemaId_draftB]
    exact hsome
  rw [storedFamily_publishRecord hfaithful hstored, schemaId_draftB]
  exact hread

/-- The second one, into another family, returns a family that is not the stored one. -/
theorem promote_misreports : ∃ record staged next,
    (vaultMachine (jsonKnowing draftA)).Reachable (readsBackEvent (jsonKnowing draftA)) vaultA ∧
      promote ordersSha256 (jsonKnowing draftA) promoterA evidenceA vaultA billingA bodyA "admin"
        (momentA billingFamily) = (.ok record, staged, next) ∧
      ¬ TellsTruth (jsonKnowing draftA) next record := by
  have hversion : (publishRecord (jsonKnowing draftA) vaultA draftB contextB).1 = .ok 1 := by
    decide +kernel
  have hpublish : publishRecord (jsonKnowing draftA) vaultA draftB contextB =
      (.ok 1, (publishRecord (jsonKnowing draftA) vaultA draftB contextB).2) := by
    rw [← hversion]
  have hpromote := promote_ok getCandidate_evidenceA.2 rfl rfl rfl hpublish
  refine ⟨_, _, _, vaultA_reachable, hpromote, fun htruth ↦ ?_⟩
  have hread := storedFamily_of_tellsTruth htruth
  have hfamilies : some ⟨ordersFamily⟩ = some (⟨billingFamily⟩ : FamilyId) :=
    storedFamily_draftB.symm.trans hread
  exact absurd hfamilies (by decide)

end Deblob.Cold
