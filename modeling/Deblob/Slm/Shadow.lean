import Deblob.Cold.SampleCapture
import Deblob.Fingerprint.Canon
import Deblob.Redis.Lifecycle
import Deblob.Slm.Contract

/-!
# Shadow classifications

A stable candidate is classified once for every set of retrieved schemas, and the decision is
appended to a log. The candidate and the digest of the set are remembered before the model is asked,
and nothing forgets them when the append fails later. So no decision is logged twice, and one is
lost exactly if an append fails for a key that was not remembered before.
-/

namespace Deblob.Slm

open Core Lib Redis Deblob.Monoid
open Cold (littleEndian)
open Fingerprint (hexLower)
open Retrieval (FamilyCandidate FamilyRef RetrievalResult Unicode InferenceDecision InferenceError
  Relation Novelty AbstainCause PolicyOutcome LiveDisposition retrieveTopk gateInputs
  evaluatePolicy liveDisposition retrievalVersion)
open Umbrella (Value)

def shadowContractVersion : ℕ := 1

def shadowPromptTemplateVersion : ℕ := 1

def shadowRedactionPolicyVersion : String := "deblob-slm-redact-v1"

inductive CoreError where
  | registryUnavailable (message : String)
  | immutabilityViolation (message : String)
  | notFound
  | conflict (message : String)
  | policyRejected (message : String)
deriving DecidableEq

/-! ## Shadow decisions -/

inductive EndpointStatus where
  | available
  | unavailable
deriving DecidableEq

structure ParsedDecisionLog where
  selectedSchemaId : Option SchemaId
  selectedRank : Option ℕ
  relation : Option Relation
  novelty : Option Novelty
  abstainCause : Option AbstainCause

/-- What the operator knows about the endpoint. -/
structure ModelMeta where
  modelId : String
  modelDigest : Option String
  serverRuntimeVersion : Option String
  quantization : Option String
  temperature : Option ℚ
  seed : Option ℕ
  structuredOutputBackend : Option String

/-- A record of the shadow log, without the labels that are added offline. -/
structure ShadowDecision where
  decisionId : String
  clusterId : CandidateId
  sourceId : String
  observationCount : ℕ
  observationWindowMs : ℤ
  canonicalizerVersion : String
  monoidVersion : String
  redactionPolicyVersion : String
  structuralEvidenceHash : String
  retrievalAlgorithmVersion : ℕ
  retrieved : List FamilyCandidate
  top1Top2Margin : ℚ
  candidateSetHash : String
  retrievalLatencyMs : ℕ
  promptTemplateVersion : ℕ
  renderedPromptHash : String
  model : ModelMeta
  maxTokens : Option ℕ
  requestTokens : Option ℕ
  responseTokens : Option ℕ
  rawModelResponse : Option String
  parsedDecision : Option ParsedDecisionLog
  parseError : Option String
  schemaValidationError : Option String
  repairCount : ℕ
  ttftMs : Option ℕ
  totalLatencyMs : ℕ
  endpointStatus : EndpointStatus
  providerError : Option String
  deterministicCompatibilityResult : Bool
  policyOutcome : PolicyOutcome
  counterfactualLiveDisposition : LiveDisposition
  loggedAtMs : ℤ

/-- `Display` of an inference error. -/
def inferenceErrorText : InferenceError → String
  | .transport message => "transport error: " ++ message
  | .timeout => "timeout"
  | .parse message => "parse error: " ++ message

def loggedStatus : Except InferenceError InferenceOutcome → EndpointStatus
  | .ok outcome => if outcome.telemetry.endpointStatus = .ok then .available else .unavailable
  | .error _ => .unavailable

/-- The parsed answer; the rank is that of the selected schema among the retrieved ones. -/
def parsedDecisionLog (retrieved : List FamilyCandidate) : InferenceDecision → ParsedDecisionLog
  | .matchSchema schemaId relation =>
    { selectedSchemaId := some schemaId
      selectedRank := (retrieved.find? fun candidate ↦ candidate.schemaId = schemaId).map
        FamilyCandidate.rank
      relation := some relation
      novelty := none
      abstainCause := none }
  | .newCandidate novelty => ⟨none, none, none, some novelty, none⟩
  | .abstain cause => ⟨none, none, none, none, some cause⟩

/-- The digest does not depend on the order of the retrieved families. -/
def candidateSetDigest (sha256 : Bytes → Digest) (candidates : List FamilyCandidate) : String :=
  hexLower (sha256 ((sortOn (fun candidate ↦ candidate.schemaId.asStr) candidates).flatMap
    fun candidate ↦ utf8 candidate.schemaId.asStr ++ utf8 "|" ++ utf8 candidate.familyId.asStr ++
      utf8 "|" ++ littleEndian 4 candidate.version ++ utf8 ";"))

/-! ## One call -/

structure ShadowConfig where
  eligibility : PromotionPolicy
  retrievalK : ℕ
  inferenceTimeoutMs : ℕ
  maxPromptTokens : ℕ

/-- The classifier with the libraries it uses; profiles are stored as JSON, of type `Stored`. -/
structure ShadowClassifier (Stored : Type) where
  config : ShadowConfig
  model : ModelMeta
  sha256 : Bytes → Digest
  lowercase : String → String
  unicode : Unicode
  fromStr : Bytes → Except String Value
  fromValue : Stored → Except String Profile
  decisionText : InferenceDecision → Option String

/-- Whether a record was written, and what the caller was told. -/
inductive AppendReply where
  | appended
  | replyLost (err : CoreError)
  | failed (err : CoreError)
deriving DecidableEq

/-- A call, with what the stores, the endpoint, the log and the clocks answer. -/
structure ShadowCall (Stored : Type) where
  candId : CandidateId
  sourceId : String
  fetched : Except CoreError (Option (CandidateRecord Stored))
  nowMs : ℤ
  listed : Except CoreError (List FamilyRef)
  answer : Except InferenceError InferenceOutcome
  decisionId : String
  retrievalLatencyMs : ℕ
  totalLatencyMs : ℕ
  loggedAtMs : ℤ
  appendReply : AppendReply

/-- The remembered keys, the requests sent to the model and the log of all candidates. -/
structure ShadowState where
  classified : Finset (CandidateId × String)
  asked : List (InferenceRequest FamilyCandidate)
  log : List (CandidateId × ShadowDecision)

def ShadowState.empty : ShadowState := ⟨∅, [], []⟩

/-- An eligible candidate with what was retrieved for it. -/
structure Prepared (Stored : Type) where
  record : CandidateRecord Stored
  profile : Profile
  retrieval : RetrievalResult

section

variable {Stored : Type} (classifier : ShadowClassifier Stored)

/-- Everything before the remembered keys are looked at. -/
def prepare (call : ShadowCall Stored) : Except CoreError (Option (Prepared Stored)) :=
  match call.fetched with
  | .error err => .error err
  | .ok none => .ok none
  | .ok (some record) =>
    if classifier.config.eligibility.check record call.nowMs then
      match classifier.fromValue record.profile with
      | .error message => .error (.registryUnavailable ("corrupt profile: " ++ message))
      | .ok profile =>
        match call.listed with
        | .error err => .error err
        | .ok refs => .ok (some ⟨record, profile, retrieveTopk classifier.unicode
            classifier.fromStr profile refs classifier.config.retrievalK⟩)
    else .ok none

def preparedKey (call : ShadowCall Stored) (prepared : Prepared Stored) : CandidateId × String :=
  (call.candId, candidateSetDigest classifier.sha256 prepared.retrieval.candidates)

def preparedPrompt (prepared : Prepared Stored) : Prompt :=
  buildPrompt classifier.sha256
    (CandidateProfileView.fromProfile classifier.lowercase prepared.profile)
    prepared.retrieval.candidates (prepared.retrieval.candidates.map FamilyCandidate.schemaId)

def shadowRequest (prepared : Prepared Stored) : InferenceRequest FamilyCandidate where
  candidate := CandidateProfileView.fromProfile classifier.lowercase prepared.profile
  retrieved := prepared.retrieval.candidates
  contractVersion := shadowContractVersion
  budget := ⟨classifier.config.maxPromptTokens, classifier.config.inferenceTimeoutMs⟩
  prompt := (preparedPrompt classifier prepared).text

def shadowDecision (call : ShadowCall Stored) (prepared : Prepared Stored) : ShadowDecision :=
  let view := CandidateProfileView.fromProfile classifier.lowercase prepared.profile
  let telemetry := call.answer.toOption.map InferenceOutcome.telemetry
  let decided := call.answer.map InferenceOutcome.decision
  let inputs := gateInputs prepared.retrieval prepared.record.sampleCount
    (view.fields.map fun field ↦ field.path.map RedactedName.escaped) decided
  let policyOutcome := evaluatePolicy inputs
  { decisionId := call.decisionId
    clusterId := call.candId
    sourceId := call.sourceId
    observationCount := prepared.record.sampleCount
    observationWindowMs := prepared.record.lastSeenMs - prepared.record.firstSeenMs
    canonicalizerVersion := Fingerprint.canonicalizer
    monoidVersion := generalizer
    redactionPolicyVersion := shadowRedactionPolicyVersion
    structuralEvidenceHash :=
      hexLower (prepared.profile.generalizedFingerprint classifier.sha256)
    retrievalAlgorithmVersion := retrievalVersion
    retrieved := prepared.retrieval.candidates
    top1Top2Margin := prepared.retrieval.top1Top2Margin
    candidateSetHash := candidateSetDigest classifier.sha256 prepared.retrieval.candidates
    retrievalLatencyMs := call.retrievalLatencyMs
    promptTemplateVersion := shadowPromptTemplateVersion
    renderedPromptHash := hexLower (preparedPrompt classifier prepared).promptHash
    model := classifier.model
    maxTokens := some classifier.config.maxPromptTokens
    requestTokens := telemetry.bind InferenceTelemetry.requestTokens
    responseTokens := telemetry.bind InferenceTelemetry.responseTokens
    rawModelResponse := decided.toOption.bind classifier.decisionText
    parsedDecision := decided.toOption.map (parsedDecisionLog prepared.retrieval.candidates)
    parseError := (telemetry.filter InferenceTelemetry.parseError).map fun _ ↦
      "parse_error flagged by SemanticInferencer telemetry"
    schemaValidationError := (telemetry.filter InferenceTelemetry.schemaValidationError).map fun _ ↦
      "schema_validation_error flagged by SemanticInferencer telemetry"
    repairCount := (telemetry.map InferenceTelemetry.repairCount).getD 0
    ttftMs := telemetry.bind InferenceTelemetry.ttftMs
    totalLatencyMs := call.totalLatencyMs
    endpointStatus := loggedStatus call.answer
    providerError := match call.answer with
      | .ok _ => none
      | .error err => some (inferenceErrorText err)
    deterministicCompatibilityResult := inputs.deterministicCompatPassed
    policyOutcome
    counterfactualLiveDisposition := liveDisposition decided policyOutcome
    loggedAtMs := call.loggedAtMs }

/-- The key is remembered before the model is asked; a failed append does not forget it. -/
def maybeClassify (state : ShadowState) (call : ShadowCall Stored) :
    Except CoreError (Option ShadowDecision) × ShadowState :=
  match prepare classifier call with
  | .error err => (.error err, state)
  | .ok none => (.ok none, state)
  | .ok (some prepared) =>
    if preparedKey classifier call prepared ∈ state.classified then (.ok none, state)
    else
      let decision := shadowDecision classifier call prepared
      let classified := insert (preparedKey classifier call prepared) state.classified
      let asked := state.asked ++ [shadowRequest classifier prepared]
      match call.appendReply with
      | .appended =>
        (.ok (some decision), ⟨classified, asked, state.log ++ [(call.candId, decision)]⟩)
      | .replyLost err => (.error err, ⟨classified, asked, state.log ++ [(call.candId, decision)]⟩)
      | .failed err => (.error err, ⟨classified, asked, state.log⟩)

def shadowRun (calls : List (ShadowCall Stored)) : ShadowState :=
  calls.foldl (fun state call ↦ (maybeClassify classifier state call).2) .empty

/-- The key a call computes, if it gets as far as that. -/
def shadowKey (call : ShadowCall Stored) : Option (CandidateId × String) :=
  match prepare classifier call with
  | .ok (some prepared) => some (preparedKey classifier call prepared)
  | _ => none

end

/-! ## Remembered keys and logged records -/

def entryKey (entry : CandidateId × ShadowDecision) : CandidateId × String :=
  (entry.1, entry.2.candidateSetHash)

/-- The records that were appended for a key. -/
def ShadowState.records (state : ShadowState) (key : CandidateId × String) :
    List (CandidateId × ShadowDecision) :=
  state.log.filter fun entry ↦ entryKey entry = key

/-- No key has two records, and only remembered keys have any. -/
structure ShadowState.Debounced (state : ShadowState) : Prop where
  atMostOne : ∀ key, (state.records key).length ≤ 1
  remembered : ∀ key, key ∉ state.classified → state.records key = []

theorem ShadowState.records_append {state next : ShadowState}
    {entry : CandidateId × ShadowDecision} (hlog : next.log = state.log ++ [entry])
    (key : CandidateId × String) :
    next.records key = state.records key ++ if entryKey entry = key then [entry] else [] := by
  unfold records
  rw [hlog, List.filter_append, List.filter_singleton]
  split_ifs <;> simp_all

theorem ShadowState.Debounced.empty : ShadowState.empty.Debounced :=
  ⟨fun _ ↦ Nat.zero_le 1, fun _ _ ↦ rfl⟩

/-- The state after a key was remembered, with at most one new record, under this key. -/
theorem ShadowState.Debounced.insert {state next : ShadowState} (hstate : state.Debounced)
    {key : CandidateId × String} (hkey : key ∉ state.classified)
    (hclassified : next.classified = Insert.insert key state.classified)
    (hlog : next.log = state.log ∨
      ∃ entry, entryKey entry = key ∧ next.log = state.log ++ [entry]) : next.Debounced := by
  have hrecords (other : CandidateId × String) : next.records other = state.records other ∨
      other = key ∧ ∃ entry, next.records other = state.records other ++ [entry] := by
    obtain hsame | ⟨entry, hentry, happend⟩ := hlog
    · exact .inl (by simp only [records, hsame])
    · rw [records_append happend]
      by_cases hother : entryKey entry = other
      · exact .inr ⟨hother.symm.trans hentry, entry, by rw [if_pos hother]⟩
      · exact .inl (by rw [if_neg hother, List.append_nil])
  refine ⟨fun other ↦ ?_, fun other hother ↦ ?_⟩
  · obtain hsame | ⟨rfl, entry, happend⟩ := hrecords other
    · rw [hsame]
      exact hstate.atMostOne other
    · rw [happend, hstate.remembered other hkey]
      exact le_refl 1
  · rw [hclassified, Finset.mem_insert, not_or] at hother
    obtain hsame | ⟨hequal, -⟩ := hrecords other
    · rw [hsame]
      exact hstate.remembered other hother.2
    · exact absurd hequal hother.1

section

variable {Stored : Type} (classifier : ShadowClassifier Stored)

/-- What one call can do: nothing, or remember its key, ask the model and log or lose the record. -/
theorem maybeClassify_cases (state : ShadowState) (call : ShadowCall Stored) :
    (maybeClassify classifier state call).2 = state ∧
      (∀ key ∈ shadowKey classifier call, key ∈ state.classified) ∨
    ∃ prepared key, shadowKey classifier call = some key ∧ key ∉ state.classified ∧
      (maybeClassify classifier state call).2.classified = insert key state.classified ∧
      (maybeClassify classifier state call).2.asked =
        state.asked ++ [shadowRequest classifier prepared] ∧
      entryKey (call.candId, shadowDecision classifier call prepared) = key ∧
      match call.appendReply with
      | .appended =>
        (maybeClassify classifier state call).1 =
          .ok (some (shadowDecision classifier call prepared)) ∧
        (maybeClassify classifier state call).2.log =
          state.log ++ [(call.candId, shadowDecision classifier call prepared)]
      | .replyLost err =>
        (maybeClassify classifier state call).1 = .error err ∧
        (maybeClassify classifier state call).2.log =
          state.log ++ [(call.candId, shadowDecision classifier call prepared)]
      | .failed err =>
        (maybeClassify classifier state call).1 = .error err ∧
        (maybeClassify classifier state call).2.log = state.log := by
  unfold maybeClassify shadowKey
  match prepare classifier call with
  | .error _ => exact .inl ⟨rfl, by simp⟩
  | .ok none => exact .inl ⟨rfl, by simp⟩
  | .ok (some prepared) =>
    by_cases hkey : preparedKey classifier call prepared ∈ state.classified
    · exact .inl ⟨by simp [hkey], by simpa using hkey⟩
    · refine .inr ⟨prepared, _, rfl, hkey, ?_⟩
      simp only [hkey, if_false]
      cases call.appendReply <;> exact ⟨rfl, rfl, rfl, rfl, rfl⟩

theorem debounced_maybeClassify {state : ShadowState} (hstate : state.Debounced)
    (call : ShadowCall Stored) : (maybeClassify classifier state call).2.Debounced := by
  obtain ⟨hsame, -⟩ | ⟨prepared, key, -, hkey, hclassified, -, hentry, hreply⟩ :=
    maybeClassify_cases classifier state call
  · rwa [hsame]
  · refine hstate.insert hkey hclassified ?_
    cases hcase : call.appendReply <;> rw [hcase] at hreply
    · exact .inr ⟨_, hentry, hreply.2⟩
    · exact .inr ⟨_, hentry, hreply.2⟩
    · exact .inl hreply.2

theorem shadowRun_append (calls : List (ShadowCall Stored)) (call : ShadowCall Stored) :
    shadowRun classifier (calls ++ [call]) =
      (maybeClassify classifier (shadowRun classifier calls) call).2 := by
  simp [shadowRun]

theorem debounced_shadowRun (calls : List (ShadowCall Stored)) :
    (shadowRun classifier calls).Debounced := by
  induction calls using List.reverseRecOn with
  | nil => exact .empty
  | append_singleton calls call ih =>
      rw [shadowRun_append]
      exact debounced_maybeClassify classifier ih call

/-! ## Lost decisions -/

/-- A call concerns a key if it is for its candidate and computes no other key. -/
def Concerns (call : ShadowCall Stored) (key : CandidateId × String) : Prop :=
  call.candId = key.1 ∧ ∀ computed ∈ shadowKey classifier call, computed = key

/-- The call asks the model, and its record is logged if the log accepts it. -/
def Reclassifies (state : ShadowState) (call : ShadowCall Stored) : Prop :=
  (∃ request, (maybeClassify classifier state call).2.asked = state.asked ++ [request]) ∧
    (call.appendReply = .appended → ∃ decision,
      (maybeClassify classifier state call).1 = .ok (some decision) ∧
      (maybeClassify classifier state call).2.log = state.log ++ [(call.candId, decision)])

/-- After a call that failed without a record, the key of the call is classified again by the next
call that computes it, as long as nothing was logged for it. -/
def RetriedAfterErrors (calls : List (ShadowCall Stored)) : Prop :=
  ∀ before call later, before ++ call :: later <+: calls →
    ∀ key err, Concerns classifier call key →
      (maybeClassify classifier (shadowRun classifier before) call).1 = .error err →
      (shadowRun classifier (before ++ [call])).log = (shadowRun classifier before).log →
      (shadowRun classifier (before ++ call :: later)).records key = [] →
      ∀ next, shadowKey classifier next = some key →
        Reclassifies classifier (shadowRun classifier (before ++ call :: later)) next

/-- A call loses its decision: the append fails for a key that is not remembered yet. -/
def LosesDecision (state : ShadowState) (call : ShadowCall Stored) : Prop :=
  (∃ key, shadowKey classifier call = some key ∧ key ∉ state.classified) ∧
    ∃ err, call.appendReply = .failed err

/-- A key that is not remembered is classified. -/
theorem reclassifies_of_notMem {state : ShadowState} {call : ShadowCall Stored}
    {key : CandidateId × String} (hkey : shadowKey classifier call = some key)
    (hfresh : key ∉ state.classified) : Reclassifies classifier state call := by
  obtain ⟨-, hseen⟩ | ⟨prepared, _, -, -, -, hasked, -, hreply⟩ :=
    maybeClassify_cases classifier state call
  · exact absurd (hseen key hkey) hfresh
  · refine ⟨⟨_, hasked⟩, fun happended ↦ ?_⟩
    rw [happended] at hreply
    exact ⟨_, hreply⟩

theorem not_reclassifies_of_mem {state : ShadowState} {call : ShadowCall Stored}
    {key : CandidateId × String} (hkey : shadowKey classifier call = some key)
    (hseen : key ∈ state.classified) : ¬ Reclassifies classifier state call := by
  rintro ⟨⟨request, hasked⟩, -⟩
  obtain ⟨hsame, -⟩ | ⟨_, other, hother, hfresh, -⟩ := maybeClassify_cases classifier state call
  · rw [hsame] at hasked
    simpa using congrArg List.length hasked
  · cases hkey.symm.trans hother
    exact hfresh hseen

/-- As long as no decision is lost, every remembered key has its record. -/
theorem records_ne_nil_of_mem {calls : List (ShadowCall Stored)}
    (hkept : ∀ before call, before ++ [call] <+: calls →
      ¬ LosesDecision classifier (shadowRun classifier before) call)
    {key : CandidateId × String} (hkey : key ∈ (shadowRun classifier calls).classified) :
    (shadowRun classifier calls).records key ≠ [] := by
  induction calls using List.reverseRecOn generalizing key with
  | nil => exact absurd hkey (Finset.notMem_empty key)
  | append_singleton calls call ih =>
      have hbefore {key : CandidateId × String}
          (hmem : key ∈ (shadowRun classifier calls).classified) :
          (shadowRun classifier calls).records key ≠ [] :=
        ih (fun before other hinitial ↦
          hkept before other (hinitial.trans (List.prefix_append _ _))) hmem
      rw [shadowRun_append] at hkey ⊢
      obtain ⟨hsame, -⟩ | ⟨prepared, computed, hcomputed, hfresh, hclassified, -, hentry, hreply⟩ :=
        maybeClassify_cases classifier (shadowRun classifier calls) call
      · rw [hsame] at hkey ⊢
        exact hbefore hkey
      · have hlogged : (maybeClassify classifier (shadowRun classifier calls) call).2.log =
            (shadowRun classifier calls).log ++
              [(call.candId, shadowDecision classifier call prepared)] := by
          cases hcase : call.appendReply with
          | appended =>
              rw [hcase] at hreply
              exact hreply.2
          | replyLost err =>
              rw [hcase] at hreply
              exact hreply.2
          | failed err =>
              exact absurd ⟨⟨computed, hcomputed, hfresh⟩, err, hcase⟩
                (hkept calls call (List.prefix_refl _))
        rw [ShadowState.records_append hlogged, hentry]
        rw [hclassified, Finset.mem_insert] at hkey
        intro hnil
        rw [List.append_eq_nil_iff] at hnil
        obtain rfl | hold := hkey
        · simp at hnil
        · exact hbefore hold hnil.1

/-- A lost decision is not made up for. -/
theorem not_retriedAfterErrors_of_losesDecision {calls before : List (ShadowCall Stored)}
    {call : ShadowCall Stored} (hinitial : before ++ [call] <+: calls)
    (hloses : LosesDecision classifier (shadowRun classifier before) call) :
    ¬ RetriedAfterErrors classifier calls := by
  obtain ⟨⟨key, hkey, hfresh⟩, err, hfailed⟩ := hloses
  obtain ⟨-, hseen⟩ | ⟨prepared, computed, hcomputed, -, hclassified, -, hentry, hreply⟩ :=
    maybeClassify_cases classifier (shadowRun classifier before) call
  · exact absurd (hseen key hkey) hfresh
  · cases hkey.symm.trans hcomputed
    rw [hfailed] at hreply
    have hlog : (shadowRun classifier (before ++ [call])).log =
        (shadowRun classifier before).log := by
      rw [shadowRun_append]
      exact hreply.2
    have hrecords : (shadowRun classifier (before ++ [call])).records key = [] := by
      have hnone := (debounced_shadowRun classifier before).remembered key hfresh
      unfold ShadowState.records at hnone ⊢
      rwa [hlog]
    have hremembered : key ∈ (shadowRun classifier (before ++ [call])).classified := by
      rw [shadowRun_append, hclassified]
      exact Finset.mem_insert_self key _
    have hconcerns : Concerns classifier call key := by
      refine ⟨?_, fun other hother ↦ ?_⟩
      · rw [← hentry]
        rfl
      · exact Option.some_injective _ (hother.symm.trans hkey)
    intro hretried
    exact not_reclassifies_of_mem classifier hkey hremembered
      (hretried before call [] hinitial key err hconcerns hreply.1 hlog hrecords call hkey)

/-- No decision is ever logged twice; and a call that failed without a record is made up for by a
later one exactly if no append fails for a key that is not remembered. -/
theorem shadow_decisions_iff (calls : List (ShadowCall Stored)) :
    ((∀ soFar, soFar <+: calls → ∀ key,
        ((shadowRun classifier soFar).records key).length ≤ 1) ∧
      RetriedAfterErrors classifier calls) ↔
    ∀ before call, before ++ [call] <+: calls →
      ¬ LosesDecision classifier (shadowRun classifier before) call := by
  constructor
  · rintro ⟨-, hretried⟩ before call hinitial hloses
    exact not_retriedAfterErrors_of_losesDecision classifier hinitial hloses hretried
  · intro hkept
    refine ⟨fun soFar _ key ↦ (debounced_shadowRun classifier soFar).atMostOne key, ?_⟩
    intro before call later hinitial key err _ _ _ hnone next hnext
    refine reclassifies_of_notMem classifier hnext fun hmem ↦ ?_
    exact records_ne_nil_of_mem classifier (fun first other hother ↦
      hkept first other (hother.trans hinitial)) hmem hnone

end

/-! ## A decision that is lost -/

def sampleClassifier : ShadowClassifier Profile where
  config := ⟨⟨20, 0⟩, 5, 5000, 4096⟩
  model := ⟨"model", none, none, none, some 0, none, none⟩
  sha256 := fun _ ↦ Vector.replicate 32 0
  lowercase := id
  unicode := .ascii
  fromStr := fun _ ↦ .error "not JSON"
  fromValue := .ok
  decisionText := fun _ ↦ none

/-- The log cannot be reached after a stable candidate without retrieved families was answered. -/
def sampleLostCall : ShadowCall Profile where
  candId := .fromDigest (Vector.replicate 32 0)
  sourceId := "shadow-sweep"
  fetched := .ok (some ⟨.fromDigest (Vector.replicate 32 0), .fromNode (.object []), 20, 0, 0,
    .provisional, none⟩)
  nowMs := 0
  listed := .ok []
  answer := .ok ⟨.abstain .ambiguous, ⟨none, none, some 7, some 7, 0, .ok, false, false, none⟩⟩
  decisionId := "0198c0de-0000-7000-8000-000000000000"
  retrievalLatencyMs := 1
  totalLatencyMs := 7
  loggedAtMs := 0
  appendReply := .failed (.registryUnavailable "XADD shadow log: broken pipe")

theorem decision_lost :
    ¬ ((∀ soFar, soFar <+: [sampleLostCall] → ∀ key,
        ((shadowRun sampleClassifier soFar).records key).length ≤ 1) ∧
      RetriedAfterErrors sampleClassifier [sampleLostCall]) := by
  rintro ⟨-, hretried⟩
  refine not_retriedAfterErrors_of_losesDecision sampleClassifier
    (List.prefix_refl ([] ++ [sampleLostCall])) ⟨⟨_, rfl, ?_⟩, _, rfl⟩ hretried
  exact Finset.notMem_empty _

end Deblob.Slm
