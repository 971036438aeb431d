import Deblob.Fingerprint.Bucket
import Deblob.Fingerprint.Canon
import Deblob.Redis.Clusters
import Deblob.Redis.Lifecycle

/-!
# Ingesting an observation

`ColdLane::ingest` looks up which candidate the fingerprints of an observation cluster onto, reads
that candidate, and writes the merged record, the aliases, the concrete shape and the statistics.
The reads come before the first write, so what an ingest does is a list of writes that is fixed by
the store it began with; an ingest that fails has done some of them.
-/

namespace Deblob.Cold

open Core Lib Fingerprint Redis
open Deblob.Monoid (Profile FieldNode)

/-- The merge of the cold lane, with the default promotion policy. -/
def coldCfg : LifecycleCfg Profile := ⟨Profile.merge, ⟨10, 5 * 60 * 1000⟩⟩

/-- `scoped_gen_fp`. -/
def scopedGenFp (source genFpHex : String) : String := source ++ ":" ++ genFpHex

/-- The profile, and with two or more fields also the profile without each of them. -/
def reducedProfiles (profile : Profile) : List Profile :=
  profile :: if 2 ≤ profile.root.children.length then
    profile.root.children.map fun field ↦ { profile with root := { profile.root with
      children := profile.root.children.filter fun child ↦ child.1 ≠ field.1 } }
  else []

def reducedGeneralizedFps (sha256 : Bytes → Digest) (profile : Profile) : List Digest :=
  (reducedProfiles profile).map fun reduced ↦ reduced.generalizedFingerprint sha256

/-- The key that an observation's own fingerprint is clustered under. -/
def clusterKey (sha256 : Bytes → Digest) (source : String) (node : Node) : String :=
  scopedGenFp source (hexLower ((Profile.fromNode node).generalizedFingerprint sha256))

/-- The keys of all projections of an observation, its own first. -/
def clusterKeys (sha256 : Bytes → Digest) (source : String) (node : Node) : List String :=
  (reducedGeneralizedFps sha256 (.fromNode node)).map fun fp ↦ scopedGenFp source (hexLower fp)

theorem clusterKeys_eq (sha256 : Bytes → Digest) (source : String) (node : Node) :
    ∃ projections, clusterKeys sha256 source node = clusterKey sha256 source node :: projections :=
  ⟨_, rfl⟩

/-- The bucket of a summary. -/
def bucketOf (sha256 : Bytes → Digest) (summary : ShapeSummary) : BucketKey where
  text := bucketKey sha256 summary
  indexed := by
    rw [toList_bucketKey]
    exact List.prefix_append _ _
  no_separator := eq_notMem_bucketKey sha256 _

def concreteVariant (sha256 : Bytes → Digest) (node : Node) : BucketKey × String :=
  (bucketOf sha256 (summarize (shapeOf node)), digestBody (fingerprint sha256 (shapeOf node)))

/-- One observation handed to the cold lane. -/
structure IngestCall where
  candId : CandidateId
  node : Node
  source : String
  nowMs : ℤ

inductive IngestOutcome where
  | ingested (candidateId : CandidateId) (isNew : Bool)
  | rateLimited
deriving DecidableEq

/-- The document with its candidate, if it was routed to one. -/
def routedTo (node : Node) : Option IngestOutcome → List (Node × CandidateId)
  | some (.ingested id _) => [(node, id)]
  | _ => []

/-- The stored sample count of a candidate, zero if there is none. -/
def sampleCountOf (store : ColdStore) (id : CandidateId) : ℕ :=
  ((getCandidate store.evidence id).map CandidateRecord.sampleCount).getD 0

variable (sha256 : Bytes → Digest) (store : ColdStore) (call : IngestCall)

/-- The candidate of the first alias that is registered. -/
def clustered : Option CandidateId :=
  (clusterKeys sha256 call.source call.node).findSome? store.clusters

def targetId : CandidateId := (clustered sha256 store call).getD call.candId

/-- The record that is read before the write. -/
def existingRecord : Option (CandidateRecord Profile) :=
  getCandidate store.evidence (targetId sha256 store call)

/-- The record that is written. -/
def ingestRecord : CandidateRecord Profile :=
  mergedRecord coldCfg
    ⟨targetId sha256 store call, .fromNode call.node, call.source, call.nowMs⟩
    (existingRecord sha256 store call)

/-- The writes after the record, in the source's order. -/
def laterWrites (target : CandidateId) : List ColdWrite :=
  (clusterKeys sha256 call.source call.node).map (fun key ↦ .setCluster key target) ++
    [.addVariant target (concreteVariant sha256 call.node),
      .appendEvidence target (.fromNode call.node)]

/-- What an ingest decides after its reads; `granted` is the answer of the rate limiter, which is
only asked about a new candidate. -/
def ingestPlan (granted : Bool) : IngestOutcome × List ColdWrite :=
  if (existingRecord sha256 store call).isNone && !granted then (.rateLimited, [])
  else (.ingested (targetId sha256 store call) (existingRecord sha256 store call).isNone,
    .upsert (ingestRecord sha256 store call) ::
      laterWrites sha256 call (targetId sha256 store call))

/-- A run of `ingest`. With `failure = some done` a store call failed after `done` writes. -/
def ingest (granted : Bool) (failure : Option ℕ) : Option IngestOutcome × ColdStore :=
  let plan := ingestPlan sha256 store call granted
  match failure with
  | none => (some plan.1, applyWrites store plan.2)
  | some done => (none, applyWrites store (plan.2.take done))

/-! ## What an ingest leaves behind -/

section

variable {sha256 store call} {target : CandidateId} {granted : Bool}

theorem profile_ingestRecord : (ingestRecord sha256 store call).profile =
    ((existingRecord sha256 store call).map CandidateRecord.profile).elim (.fromNode call.node)
      fun profile ↦ profile.merge (.fromNode call.node) := by
  unfold ingestRecord
  cases existingRecord sha256 store call <;> rfl

theorem sampleCount_ingestRecord : (ingestRecord sha256 store call).sampleCount =
    ((existingRecord sha256 store call).map CandidateRecord.sampleCount).getD 0 + 1 := rfl

/-- The record that an ingest writes is found under the target, the others are as before. -/
theorem getCandidate_ingestRecord (id : CandidateId) :
    getCandidate (upsertCandidate store.evidence (ingestRecord sha256 store call)) id =
      if id = targetId sha256 store call then some (ingestRecord sha256 store call)
      else getCandidate store.evidence id :=
  getCandidate_upsertCandidate _

/-- Whatever is done of the later writes, the records stay. -/
theorem evidence_of_subset {writes : List ColdWrite}
    (hsubset : writes ⊆ laterWrites sha256 call target) :
    (applyWrites store writes).evidence = store.evidence := by
  apply applyWrites_evidence
  intro write hwrite record heq
  rw [heq] at hwrite
  have hmem := hsubset hwrite
  simp [laterWrites] at hmem

theorem clusters_laterWrites (key : String) :
    (applyWrites store (laterWrites sha256 call target)).clusters key =
      if key ∈ clusterKeys sha256 call.source call.node then some target
      else store.clusters key := by
  rw [laterWrites, applyWrites_append, ← clusters_setClusters]
  rfl

theorem variants_laterWrites :
    (applyWrites store (laterWrites sha256 call target)).variants =
      store.variants.sadd target (encodeVariant (concreteVariant sha256 call.node)) := by
  rw [laterWrites, applyWrites_append]
  change (applyWrites store _).variants.sadd _ _ = _
  rw [variants_setClusters]

/-- An ingest is refused without a write, or writes the record and everything after it. -/
theorem ingestPlan_cases :
    ingestPlan sha256 store call granted = (.rateLimited, []) ∨
      ingestPlan sha256 store call granted =
        (.ingested (targetId sha256 store call) (existingRecord sha256 store call).isNone,
          .upsert (ingestRecord sha256 store call) ::
            laterWrites sha256 call (targetId sha256 store call)) := by
  unfold ingestPlan
  split_ifs
  · exact .inl rfl
  · exact .inr rfl

/-- Every alias is left as it was, or set to the target under one of the observation's keys. -/
theorem clusters_ingest (failure : Option ℕ) (key : String) :
    (ingest sha256 store call granted failure).2.clusters key = store.clusters key ∨
      (key ∈ clusterKeys sha256 call.source call.node ∧
        (ingest sha256 store call granted failure).2.clusters key =
          some (targetId sha256 store call)) := by
  have hplan : ∀ genFp id, .setCluster genFp id ∈ (ingestPlan sha256 store call granted).2 →
      genFp ∈ clusterKeys sha256 call.source call.node ∧ id = targetId sha256 store call := by
    intro genFp id hmem
    rcases @ingestPlan_cases sha256 store call granted with hplan | hplan
    · rw [hplan] at hmem
      cases hmem
    · simp only [hplan, laterWrites, List.mem_cons, List.mem_append, List.mem_map] at hmem
      grind
  cases failure with
  | none => exact applyWrites_clusters hplan key
  | some done =>
      apply applyWrites_clusters
      intro genFp id hmem
      exact hplan genFp id (List.mem_of_mem_take hmem)

/-- An ingest that the limiter and the store let through. -/
theorem ingest_granted : ingest sha256 store call true none =
    (some (.ingested (targetId sha256 store call) (existingRecord sha256 store call).isNone),
      applyWrites store (.upsert (ingestRecord sha256 store call) ::
        laterWrites sha256 call (targetId sha256 store call))) := by
  simp [ingest, ingestPlan]

/-- An ingest forgets no variant and records none but the document's own. -/
theorem variants_ingest (failure : Option ℕ) (id : CandidateId) :
    store.variants id ⊆ (ingest sha256 store call granted failure).2.variants id ∧
      ∀ member ∈ (ingest sha256 store call granted failure).2.variants id,
        member ∈ store.variants id ∨
          member = encodeVariant (concreteVariant sha256 call.node) := by
  have hplan : ∀ id other, .addVariant id other ∈ (ingestPlan sha256 store call granted).2 →
      other = concreteVariant sha256 call.node := by
    intro id other hmem
    rcases @ingestPlan_cases sha256 store call granted with hplan | hplan
    · rw [hplan] at hmem
      cases hmem
    · simp only [hplan, laterWrites, List.mem_cons, List.mem_append, List.mem_map] at hmem
      grind
  cases failure with
  | none => exact applyWrites_variants hplan id
  | some done =>
      apply applyWrites_variants
      intro id other hmem
      exact hplan id other (List.mem_of_mem_take hmem)

/-- A refused ingest writes nothing. -/
theorem ingest_rateLimited {failure : Option ℕ}
    (hrefused : (ingest sha256 store call granted failure).1 = some .rateLimited) :
    (ingest sha256 store call granted failure).2 = store := by
  cases failure with
  | some done => cases hrefused
  | none =>
      unfold ingest at hrefused ⊢
      rcases @ingestPlan_cases sha256 store call granted with hplan | hplan
      · rw [hplan]
        rfl
      · rw [hplan] at hrefused
        cases hrefused

/-- An ingest that reports a candidate has done all of its writes. -/
theorem ingest_ingested {failure : Option ℕ} {id : CandidateId} {isNew : Bool}
    (hingested : (ingest sha256 store call granted failure).1 = some (.ingested id isNew)) :
    id = targetId sha256 store call ∧
      (ingest sha256 store call granted failure).2 = applyWrites store
        (.upsert (ingestRecord sha256 store call) ::
          laterWrites sha256 call (targetId sha256 store call)) := by
  cases failure with
  | some done => cases hingested
  | none =>
      unfold ingest at hingested ⊢
      rcases @ingestPlan_cases sha256 store call granted with hplan | hplan
      · rw [hplan] at hingested
        cases hingested
      · rw [hplan] at hingested ⊢
        cases hingested
        exact ⟨rfl, rfl⟩

/-- An ingest that reports a candidate wrote the merged record. -/
theorem evidence_ingested {failure : Option ℕ} {id : CandidateId} {isNew : Bool}
    (hingested : (ingest sha256 store call granted failure).1 = some (.ingested id isNew)) :
    (ingest sha256 store call granted failure).2.evidence =
      upsertCandidate store.evidence (ingestRecord sha256 store call) := by
  rw [(ingest_ingested hingested).2, applyWrites_cons]
  exact evidence_of_subset (List.Subset.refl _)

end

/-! ## Sample documents -/

/-- The digest with the bytes of a 256-bit number. -/
def digestOfNat (number : ℕ) : Digest :=
  .ofFn fun index ↦ .ofNat (number / 256 ^ (31 - index.1))

/-- Documents with a number under each of the keys. -/
def numbers (keys : List String) : Node := .object (keys.map fun key ↦ (key, .number "1"))

/-- What is hashed for the generalized fingerprint of such a document. -/
def numbersPreimage (keys : List String) : Bytes :=
  ascii "deblob-monoid-v1\x00\x7b\"gen\":\"deblob-monoid-v1\",\"fields\":" ++
    (Profile.fromNode (numbers keys)).generalizedCanonicalJson ++ ascii "\x7d"

/-- What is hashed for the candidate of a shape digest in the source `orders`. -/
def ordersPreimage (shapeDigest : ℕ) : Bytes :=
  ascii "orders\x00" ++ (digestOfNat shapeDigest).toList

/-- SHA-256 on what is hashed for the documents with the keys `a`, `b` or both. -/
def ordersSha256 (bytes : Bytes) : Digest :=
  (([(numbersPreimage ["a"], 0xbcd4801b61f055dc75ce23ace9fb5f696987c6d706c4178bfed1633a79a7da03),
    (numbersPreimage ["b"], 0x2e02106d691c97590e3c1470c4f8848affcfc5a44945cae672698d84b7dcd5a3),
    (numbersPreimage ["a", "b"],
      0x2c330121045d3b9af42a75a7dc6f34eac3ff0148ae7ef3a98ea774f7f25510be),
    (preimage (shapeOf (numbers ["a"])),
      0x7df45aab054600db18d644866d96b4c26dfcf233e9bda43b732d2f246609b7f6),
    (preimage (shapeOf (numbers ["b"])),
      0xefca5b32af1e98c3ebcaeb8650543d773707e4102a0a2fa6f3b7c4d4f71da741),
    (preimage (shapeOf (numbers ["a", "b"])),
      0xe345e5cf6a2172f934f81973941401ace4bbe063534a9edc18fcbcbe367f1bd2),
    (ordersPreimage 0x7df45aab054600db18d644866d96b4c26dfcf233e9bda43b732d2f246609b7f6,
      0x41bb8a915cfe951fb93d001c4795e33ebf7154863f213432d874cb2c7ad84d0b),
    (ordersPreimage 0xefca5b32af1e98c3ebcaeb8650543d773707e4102a0a2fa6f3b7c4d4f71da741,
      0xa2ada4f1356e6b40d0efcb326b17dfe995522a0a6394ef498b650dea65b458b7),
    (ordersPreimage 0xe345e5cf6a2172f934f81973941401ace4bbe063534a9edc18fcbcbe367f1bd2,
      0xf107588591883039d4b1ce16be290cf802ca55ed7ecace8dc4b0649e3549ed87),
    (ascii "a", 0xca978112ca1bbdcafac231b39a23dc4da786eff8147c4e72b9807785afee48bb),
    (ascii "b", 0x3e23e8160039594a33894f6564e1b1348bbd7a0088d42c4acb73eeaed59c009d),
    (ascii "a\x00b", 0x59b271ae1bbcb1d31d41929817f4b16fb439eb4f31520b5ad1d5ce98920a7138)].lookup
      bytes).map digestOfNat).getD (.replicate 32 0)

end Deblob.Cold
