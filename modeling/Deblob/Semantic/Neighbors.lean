import Deblob.Redis.SemanticReads
import Deblob.Semantic.Signature
import Mathlib.Data.List.Sort

/-!
# Semantic neighbors

The search for the neighbors of a schema looks up the postings of the features of its signature,
leaves out those of features too common to discriminate unless that leaves none, and scores the
schemas found. Next to it stands the scoring of every active schema. The search finds a neighbor
exactly if it shares a feature that was looked up.
-/

namespace Deblob.Semantic

open Core Lib Redis Signature

structure Neighbor where
  schemaId : SchemaId
  semanticRevisionId : RevisionId
  score : Score
  strength : Strength
  sharedAnchorCount : ℕ
  matchedFeatureClasses : List String

inductive NeighborOutcome where
  | noAnchor
  | tooBroad
  | found (neighbors : List Neighbor) (idfPopulationN : ℕ)

/-- The better neighbor comes first; ties end at the schema ids. -/
def cmpNeighbors (a b : Neighbor) : Ordering :=
  (compare b.strength a.strength).then
    ((b.score.cmpRank a.score).then
      ((compare b.sharedAnchorCount a.sharedAnchorCount).then
        (compare a.schemaId.asStr b.schemaId.asStr)))

structure Candidate where
  schemaId : SchemaId
  revisionId : RevisionId
  signature : SemanticSignature

/-- The multiplier under document frequencies that were read for some features. -/
def readMultiplier (n : ℕ) (df : List (Bytes × ℕ)) (key : Bytes) : ℕ :=
  idfMultiplier n ((getEntry df key).getD 0)

/-- The keys of the features the multiplier does not drop, all keys if it drops them all. -/
def unionHex (signature : SemanticSignature) (idfQuery : Bytes → ℕ) : List String :=
  let prunedHex := ((signature.featureKeys.zip signature.featureKeysHex).filter fun (raw, _) ↦
    0 < idfQuery raw).map Prod.snd
  if prunedHex.isEmpty then signature.featureKeysHex else prunedHex

/-- The active signatures of the candidates, without the query schema and schemas not active. -/
def loadCandidates (store : SemanticReads SemanticMetadata) (querySchId : SchemaId) :
    List SchemaId → Except SemError (List Candidate)
  | [] => .ok []
  | candidateId :: candidateIds =>
    if candidateId = querySchId then loadCandidates store querySchId candidateIds
    else do
      match ← store.activeRevision candidateId with
      | none => loadCandidates store querySchId candidateIds
      | some (revision, _) =>
        let candidates ← loadCandidates store querySchId candidateIds
        return ⟨candidateId, revision.hash.revisionId, semanticSignature revision.metadata⟩ ::
          candidates

/-- Every feature of the query or of a candidate with its hex key. -/
def rawToHex (querySignature : SemanticSignature) (candidates : List Candidate) :
    List (Bytes × String) :=
  ((querySignature :: candidates.map Candidate.signature).flatMap fun signature ↦
    signature.featureKeys.zip signature.featureKeysHex).foldl
      (fun map (raw, hex) ↦ insertWith raw hex id map) []

/-- A candidate as a neighbor, unless the match is insufficient. -/
def scoreCandidate (querySignature : SemanticSignature) (idf : Bytes → ℕ) (candidate : Candidate) :
    Option Neighbor :=
  let strength := strengthWeighted querySignature candidate.signature idf
  if strength = .insufficient then none
  else some {
    schemaId := candidate.schemaId
    semanticRevisionId := candidate.revisionId
    score := similarityWeighted querySignature candidate.signature idf
    strength := strength
    sharedAnchorCount := sharedAnchorCountWeighted querySignature candidate.signature idf
    matchedFeatureClasses := matchedFeatureClasses querySignature candidate.signature }

/-- The neighbors of an annotated schema, ranked and not yet cut to the best `k`. -/
def rankedNeighbors (store : SemanticReads SemanticMetadata) (querySchId : SchemaId) :
    Except SemError (Option NeighborOutcome) := do
  match ← store.activeRevision querySchId with
  | none => return none
  | some (queryRevision, _) =>
    let querySignature := semanticSignature queryRevision.metadata
    let (nQuery, queryDfs) ← store.idfStats querySignature.featureKeysHex
    let idfQuery := readMultiplier nQuery (querySignature.featureKeys.zip queryDfs)
    if ¬ HasAnchor querySignature then return some .noAnchor
    else
      match ← store.signatureCandidates (unionHex querySignature idfQuery) with
      | .tooBroad => return some .tooBroad
      | .bounded candidateIds =>
        let candidates ← loadCandidates store querySchId candidateIds
        let ordered := rawToHex querySignature candidates
        let (n, dfs) ← store.idfStats (ordered.map Prod.snd)
        let idf := readMultiplier n ((ordered.map Prod.fst).zip dfs)
        let found := candidates.filterMap (scoreCandidate querySignature idf)
        return some (.found (found.mergeSort fun a b ↦ (cmpNeighbors a b).isLE) n)

def NeighborOutcome.truncate (k : ℕ) : NeighborOutcome → NeighborOutcome
  | found neighbors n => found (neighbors.take k) n
  | outcome => outcome

def neighbors (store : SemanticReads SemanticMetadata) (querySchId : SchemaId) (k : ℕ) :
    Except SemError (Option NeighborOutcome) :=
  (rankedNeighbors store querySchId).map (Option.map (NeighborOutcome.truncate k))

end Deblob.Semantic
