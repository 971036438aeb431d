import Deblob.Retrieval.Rank
import Deblob.Monoid.Profile

/-!
# The shadow policy

A model selects one of the retrieved schemas, or none. Whether its selection would be accepted is
decided by fixed gates on the retrieval and the evidence, and the trusted path applies nothing that
these gates reject. What the model answers is arbitrary.
-/

namespace Deblob.Retrieval

open Core Lib Deblob.Monoid
open Umbrella (Value)

def policyMaxDistance : ℚ := 15 / 100

def policyMinMargin : ℚ := 10 / 100

def policyMinObservations : ℕ := 20

/-! ## Answers of the model -/

inductive Relation where
  | exact
  | compatibleDrift
  | incompatibleSimilarity
deriving DecidableEq

inductive Novelty where
  | structural
  | semantic
deriving DecidableEq

inductive AbstainCause where
  | ambiguous
  | insufficientEvidence
  | candidateMissing
deriving DecidableEq

inductive InferenceDecision where
  | matchSchema (schemaId : SchemaId) (relation : Relation)
  | newCandidate (novelty : Novelty)
  | abstain (cause : AbstainCause)
deriving DecidableEq

inductive InferenceError where
  | transport (message : String)
  | timeout
  | parse (message : String)
deriving DecidableEq

/-- Only these relations permit to tag the candidate as the schema. -/
def Relation.eligible (relation : Relation) : Bool :=
  relation = .exact || relation = .compatibleDrift

def InferenceDecision.isAcceptedMatch : InferenceDecision → Bool
  | matchSchema _ relation => relation.eligible
  | _ => false

/-! ## Gates -/

structure PolicyGateInputs where
  isMatchSchema : Bool
  selectedRank : Option ℕ
  selectedDistance : Option ℚ
  top1Top2Margin : ℚ
  observationCount : ℕ
  relation : Option Relation
  deterministicCompatPassed : Bool
  redactionCollision : Bool

inductive GateReason where
  | noMatchProposed
  | rankNotOne
  | distanceExceeded
  | marginTooSmall
  | insufficientObservations
  | relationNotEligible
  | deterministicCompatibilityFailed
  | redactionCollision
deriving DecidableEq

structure PolicyOutcome where
  wouldAccept : Bool
  gateReasons : List GateReason
deriving DecidableEq

/-- The reason of a gate, unless it is passed. -/
def gate (passed : Bool) (reason : GateReason) : List GateReason := if passed then [] else [reason]

/-- Without a proposed match no gate is looked at; otherwise all of them are. -/
def evaluatePolicy (inputs : PolicyGateInputs) : PolicyOutcome :=
  if inputs.isMatchSchema then
    let reasons :=
      gate (inputs.selectedRank = some 1) .rankNotOne ++
      gate (inputs.selectedDistance.any (· ≤ policyMaxDistance)) .distanceExceeded ++
      gate (policyMinMargin ≤ inputs.top1Top2Margin) .marginTooSmall ++
      gate (policyMinObservations ≤ inputs.observationCount) .insufficientObservations ++
      gate (inputs.relation.any Relation.eligible) .relationNotEligible ++
      gate inputs.deterministicCompatPassed .deterministicCompatibilityFailed ++
      gate (!inputs.redactionCollision) .redactionCollision
    ⟨reasons.isEmpty, reasons⟩
  else ⟨false, [.noMatchProposed]⟩

inductive LiveDisposition where
  | wouldAcceptMatch (schemaId : SchemaId) (relation : Relation)
  | wouldRejectMatch (gateReasons : List GateReason)
  | wouldRemainShadowOnly
deriving DecidableEq

/-- Two fields have one path after redaction; the segments are joined. -/
def detectRedactionCollision (fields : List (List String)) : Bool :=
  let rec insertAll (seen : List String) : List (List String) → Bool
    | [] => false
    | path :: fields =>
      let joined := String.intercalate ">" path
      decide (joined ∈ seen) || insertAll (joined :: seen) fields
  insertAll [] fields

/-! ## Classification -/

/-- What one classification decides; `fields` are the redacted paths the model is shown. -/
structure Classified where
  inputs : PolicyGateInputs
  policyOutcome : PolicyOutcome
  counterfactualLiveDisposition : LiveDisposition

def gateInputs (retrieval : RetrievalResult) (sampleCount : ℕ) (fields : List (List String))
    (answer : Except InferenceError InferenceDecision) : PolicyGateInputs :=
  let selection : Bool × Option FamilyCandidate × Option Relation :=
    match answer with
    | .ok (.matchSchema schemaId relation) =>
      (true, retrieval.candidates.find? fun candidate ↦ candidate.schemaId = schemaId,
        some relation)
    | _ => (false, none, none)
  let selectedDistance := selection.2.1.map FamilyCandidate.distance
  { isMatchSchema := selection.1
    selectedRank := selection.2.1.map FamilyCandidate.rank
    selectedDistance := selectedDistance
    top1Top2Margin := retrieval.top1Top2Margin
    observationCount := sampleCount
    relation := selection.2.2
    deterministicCompatPassed := selectedDistance.any (· ≤ policyMaxDistance)
    redactionCollision := detectRedactionCollision fields }

def liveDisposition (answer : Except InferenceError InferenceDecision) (outcome : PolicyOutcome) :
    LiveDisposition :=
  match answer with
  | .ok (.matchSchema schemaId relation) =>
    if outcome.wouldAccept then .wouldAcceptMatch schemaId relation
    else .wouldRejectMatch outcome.gateReasons
  | _ => .wouldRemainShadowOnly

/-- The part of `maybe_classify` behind the retrieval: the answer is judged by the gates. -/
def maybeClassify (retrieval : RetrievalResult) (sampleCount : ℕ) (fields : List (List String))
    (answer : Except InferenceError InferenceDecision) : Classified :=
  let inputs := gateInputs retrieval sampleCount fields answer
  let policyOutcome := evaluatePolicy inputs
  { inputs
    policyOutcome
    counterfactualLiveDisposition := liveDisposition answer policyOutcome }

/-- The references are those of the neighborhood of the candidate. -/
def retrieveTopk (unicode : Unicode) (fromStr : Bytes → Except String Value) (candidate : Profile)
    (refs : List FamilyRef) (k : ℕ) : RetrievalResult :=
  rankCandidates unicode fromStr
    (extractFeatures unicode (fieldSigFromNode candidate.count candidate.root)) refs k

/-! ## The trusted path -/

inductive TrustVerdict where
  | apply (schemaId : SchemaId) (relation : Relation)
  | proposeToHuman (schemaId : SchemaId) (relation : Relation) (gateReasons : List GateReason)
  | reject (gateReasons : List GateReason)
  | shadowOnly
deriving DecidableEq

inductive TrustMode where
  | autoApply
  | proposeOnly
deriving DecidableEq

def trustedVerdict (decision : InferenceDecision) (inputs : PolicyGateInputs) (mode : TrustMode) :
    TrustVerdict :=
  match decision with
  | .matchSchema schemaId relation =>
    if !decision.isAcceptedMatch then .shadowOnly
    else
      let outcome := evaluatePolicy inputs
      if !outcome.wouldAccept then .reject outcome.gateReasons
      else
        match mode with
        | .autoApply => .apply schemaId relation
        | .proposeOnly => .proposeToHuman schemaId relation []
  | _ => .shadowOnly

/-! ## Gates that are passed -/

@[simp]
theorem gate_eq_nil {passed : Bool} {reason : GateReason} :
    gate passed reason = [] ↔ passed = true := by
  cases passed <;> simp [gate]

/-- The policy accepts exactly if a match is proposed and every gate is passed. -/
theorem wouldAccept_iff {inputs : PolicyGateInputs} :
    (evaluatePolicy inputs).wouldAccept = true ↔
      inputs.isMatchSchema = true ∧ inputs.selectedRank = some 1 ∧
      (∃ distance ∈ inputs.selectedDistance, distance ≤ policyMaxDistance) ∧
      policyMinMargin ≤ inputs.top1Top2Margin ∧
      policyMinObservations ≤ inputs.observationCount ∧
      (∃ relation ∈ inputs.relation, relation.eligible = true) ∧
      inputs.deterministicCompatPassed = true ∧ inputs.redactionCollision = false := by
  unfold evaluatePolicy
  split_ifs with hmatch
  · simp [hmatch, List.isEmpty_iff, Option.any_eq_true]
  · simp [hmatch]

end Deblob.Retrieval
