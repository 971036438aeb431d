import Deblob.Cold.AutoPromote
import Deblob.Cold.PromotedRecord
import Deblob.Http.Ingest
import Deblob.Redis.CandidateIndex
import Deblob.Retrieval.Policy

/-!
# Promotions without a human

The sweep promotes what its policy accepts from the sources an operator named, and the trusted path
promotes what the model proposed and the gates confirmed. Both go through the promoter of the
management API, whose audit entries say who promoted what and why. Operators name themselves by a
header, which may not claim the actor of either path.
-/

namespace Deblob.Cold

open Core Lib Fingerprint Redis
open Deblob.Monoid (Profile)
open Retrieval (Relation InferenceDecision PolicyGateInputs GateReason TrustMode trustedVerdict
  evaluatePolicy)

/-! ## The configuration -/

structure AutoPromoteConfig where
  enabled : Bool
  minSamples : ℕ
  minAgeMs : ℤ
  minRequiredFields : ℕ
  minRequiredRatio : ℚ
  sweepIntervalMs : ℕ
  allowedSources : List String
  maxPromotionsPerTick : ℕ

instance : Inhabited AutoPromoteConfig :=
  ⟨⟨false, 50, 10 * 60 * 1000, 2, 1 / 2, 30000, [], 20⟩⟩

def AutoPromoteConfig.toPolicy (config : AutoPromoteConfig) : AutoPromotePolicy :=
  ⟨config.minSamples, config.minAgeMs, config.minRequiredFields, config.minRequiredRatio⟩

/-- Why a configuration is refused. -/
inductive InvalidAutoPromote where
  | interval
  | ratio (ratio : ℚ)
  | requiredFields
  | perTick
  | samples (auto manual : ℕ)
  | age (auto manual : ℤ)
  | noSources
deriving DecidableEq

/-- `display` writes a ratio. -/
def InvalidAutoPromote.message (display : ℚ → String) : InvalidAutoPromote → String
  | .interval => "[auto_promote].sweep_interval_ms must be > 0"
  | .ratio value => "[auto_promote].min_required_ratio must be in 0.0..=1.0, got " ++ display value
  | .requiredFields => "[auto_promote].min_required_fields must be >= 1"
  | .perTick => "[auto_promote].max_promotions_per_tick must be >= 1"
  | .samples auto manual =>
    "[auto_promote].min_samples (" ++ toString auto ++ ") must be >= [promotion].min_samples (" ++
      toString manual ++ ") — auto thresholds cannot be looser than the manual guards the " ++
      "promoter re-applies"
  | .age auto manual =>
    "[auto_promote].min_age_ms (" ++ toString auto ++ ") must be >= [promotion].min_age_ms (" ++
      toString manual ++ ")"
  | .noSources =>
    "[auto_promote].enabled is true but [auto_promote].allowed_sources is empty — name at least " ++
      "one trusted source, or disable auto-promotion (default-deny)"

/-- What is checked at startup; `promotion` is the policy for promotions by hand. -/
def AutoPromoteConfig.validate (config : AutoPromoteConfig) (promotion : PromotionPolicy) :
    Except InvalidAutoPromote Unit :=
  if !config.enabled then .ok ()
  else if config.sweepIntervalMs = 0 then .error .interval
  else if ¬ (0 ≤ config.minRequiredRatio ∧ config.minRequiredRatio ≤ 1) then
    .error (.ratio config.minRequiredRatio)
  else if config.minRequiredFields = 0 then .error .requiredFields
  else if config.maxPromotionsPerTick = 0 then .error .perTick
  else if config.minSamples < promotion.minSamples then
    .error (.samples config.minSamples promotion.minSamples)
  else if config.minAgeMs < promotion.minAgeMs then
    .error (.age config.minAgeMs promotion.minAgeMs)
  else if config.allowedSources.isEmpty then .error .noSources
  else .ok ()

/-! ## Who promotes, and why -/

def autoPromoteActor : String := "deblob-auto-promote"
def trustedActor : String := "policy:slm-v1"
def actorHeader : Http.HeaderName := ⟨"x-deblob-actor", by decide⟩
def defaultActor : String := "api"

/-- The actors of the unattended paths, which a client may not claim. -/
def isReservedActor (actor : String) : Bool :=
  actor == autoPromoteActor || "policy:".toList.isPrefixOf actor.toList

def actorFromHeaders (headers : Http.HeaderMap) : String :=
  match (headers.get actorHeader).bind Http.HeaderValue.toStr with
  | some bytes =>
    let actor := String.ofList (bytes.map fun byte ↦ Char.ofNat byte.toNat)
    if bytes.isEmpty || isReservedActor actor then defaultActor else actor
  | none => defaultActor

/-- Only sources an operator named; a candidate without a source has none. -/
def sourceAllowed (source : Option String) (allowed : List String) : Bool :=
  match source with
  | some source => allowed.any (· == source)
  | none => false

def autoPromoteRequest (record : CandidateRecord Profile) (nowMs : ℤ) : PromoteBody where
  family := .new
  name := none
  reason := "auto-promoted: " ++ toString record.sampleCount ++ " samples over " ++
    toString (nowMs - record.firstSeenMs) ++ "ms, shape settled"

def relationText : Relation → String
  | .exact => "Exact"
  | .compatibleDrift => "CompatibleDrift"
  | .incompatibleSimilarity => "IncompatibleSimilarity"

/-- The request of the trusted path, into the family of the matched schema. -/
def trustedRequest (schemaId : SchemaId) (relation : Relation) (family : FamilyId) :
    PromoteBody where
  family := .existing family
  name := none
  reason := "trusted-slm-apply: deterministically-corroborated " ++ relationText relation ++
    " match to " ++ schemaId.asStr ++ " (rank=1, distance<=0.15, margin>=0.10, obs>=20, " ++
    "deterministic_compat_passed=true, no redaction collision)"

structure Proposal where
  candidateId : CandidateId
  schemaId : SchemaId
  relation : Relation
  reason : String

def proposalReason (relation : Relation) : String :=
  "deterministically corroborated " ++ relationText relation ++ " match: rank=1, " ++
    "distance<=0.15, margin>=0.10, obs>=20, deterministic_compat_passed=true; " ++
    "awaiting human approval (TrustMode::ProposeOnly)"

/-! ## The two paths and everybody else -/

/-- Where the sweep is in its tick: it has made `promoted` promotions in it. -/
inductive SweepStage where
  | idle
  | listing (promoted : ℕ)
  | working (records : List (CandidateRecord Profile)) (nowMs : ℤ) (promoted : ℕ) (last : Bool)

/-- A call of `apply_if_trusted`. -/
structure TrustedCall where
  decision : InferenceDecision
  inputs : PolicyGateInputs
  mode : TrustMode
  candidateId : CandidateId

/-- A call that has read the family of the matched schema. -/
structure TrustedApply where
  call : TrustedCall
  schemaId : SchemaId
  relation : Relation
  family : FamilyId

/-- A call of the promoter: what it was asked, the candidate it found, and how it ended. -/
structure Attempt where
  id : CandidateId
  body : PromoteBody
  actor : String
  found : Option (CandidateRecord Profile)
  checkedMs : ℤ
  error : Option PromoteError

def refusal : Except PromoteError SchemaRecord → Option PromoteError
  | .ok _ => none
  | .error error => some error

/-- The stores, the work in progress, and what has happened so far: the ticks, the records that
pages of the sweep had, the calls of the trusted path and those of the promoter. `owed` are the
candidates listed at the start of the tick that no page had. -/
structure UnattendedState where
  evidence : EvidenceStore Profile
  vault : SchemaVault
  stage : SweepStage
  applies : List TrustedApply
  proposals : List Proposal
  ticks : ℕ
  owed : Set CandidateId
  seen : List (CandidateRecord Profile × ℤ)
  calls : List TrustedCall
  attempts : List Attempt

inductive UnattendedEvent where
  | operator (headers : Http.HeaderMap) (id : CandidateId) (body : PromoteBody)
      (moment : PromoteMoment)
  | name (id : SchemaId) (label source metadata : String)
  | evidence (store : EvidenceStore Profile)
  | tick
  | shutdown
  | page (reply : Option ScanReply) (nowMs : ℤ)
  | next (moment : PromoteMoment)
  | apply (call : TrustedCall)
  | applyPromote (position : ℕ) (moment : PromoteMoment)

section

variable (sha256 : Bytes → Digest) (json : RecordJson) (promoter : Promoter)
  (config : AutoPromoteConfig)

def UnattendedState.promote (state : UnattendedState) (id : CandidateId) (body : PromoteBody)
    (actor : String) (moment : PromoteMoment) : UnattendedState :=
  let result := Cold.promote sha256 json promoter state.evidence state.vault id body actor moment
  { state with
    evidence := result.2.1
    vault := result.2.2
    attempts := state.attempts ++ [⟨id, body, actor, getCandidate state.evidence id,
      moment.checkedMs, refusal result.1⟩] }

/-- Whether the sweep promotes a record that a page had. -/
def autoPromotes (record : CandidateRecord Profile) (nowMs : ℤ) : Bool :=
  sourceAllowed record.source config.allowedSources &&
    (config.toPolicy.eligible .ok record nowMs).isOk

/-- The stage behind a record that was promoted or not; the cap ends the tick. -/
def sweptStage (records : List (CandidateRecord Profile)) (nowMs : ℤ) (promoted : ℕ)
    (last done : Bool) : SweepStage :=
  if done then
    if config.maxPromotionsPerTick ≤ promoted + 1 then .idle
    else .working records nowMs (promoted + 1) last
  else .working records nowMs promoted last

/-- The sweep's work on one record. -/
def sweepRecord (state : UnattendedState) (record : CandidateRecord Profile)
    (records : List (CandidateRecord Profile)) (nowMs : ℤ) (promoted : ℕ) (last : Bool)
    (moment : PromoteMoment) : UnattendedState :=
  if autoPromotes config record nowMs then
    { state.promote sha256 json promoter record.candidateId (autoPromoteRequest record nowMs)
        autoPromoteActor moment with
      stage := sweptStage config records nowMs promoted last
        (Cold.promote sha256 json promoter state.evidence state.vault record.candidateId
          (autoPromoteRequest record nowMs) autoPromoteActor moment).1.isOk }
  else { state with stage := .working records nowMs promoted last }

/-- `apply_if_trusted` up to the promotion. -/
def applyIfTrusted (state : UnattendedState) (call : TrustedCall) : UnattendedState :=
  match trustedVerdict call.decision call.inputs call.mode with
  | .apply schemaId relation =>
    match getSchema json state.vault schemaId with
    | .ok (some existing) =>
      { state with applies := ⟨call, schemaId, relation, existing.familyId⟩ :: state.applies }
    | _ => state
  | .proposeToHuman schemaId relation _ =>
    { state with
      proposals := state.proposals ++
        [⟨call.candidateId, schemaId, relation, proposalReason relation⟩] }
  | .reject _ | .shadowOnly => state

def unattendedMachine : Machine UnattendedState UnattendedEvent where
  init := ⟨.empty, .empty, .idle, [], [], 0, ∅, [], [], []⟩
  step state
    | .operator headers id body moment =>
      some (state.promote sha256 json promoter id body (actorFromHeaders headers) moment)
    | .name id label source metadata =>
      some { state with vault := (setSchemaName state.vault id label source metadata).2 }
    | .evidence store => some { state with evidence := store }
    | .tick =>
      match state.stage with
      | .idle =>
        some { state with
          stage := .listing 0
          ticks := state.ticks + 1
          owed := {id | id ∈ state.evidence.listed .provisional} }
      | _ => none
    | .shutdown =>
      match state.stage with
      | .listing _ => some { state with stage := .idle }
      | _ => none
    | .page reply nowMs =>
      match state.stage, reply with
      | .listing promoted, some reply =>
        let records := listCandidates state.evidence reply.keys
        some { state with
          stage := .working records nowMs promoted reply.last
          owed := state.owed \ {id | id ∈ reply.keys}
          seen := state.seen ++ records.map fun record ↦ (record, nowMs) }
      | .listing _, none => some { state with stage := .idle }
      | _, _ => none
    | .next moment =>
      match state.stage with
      | .working [] _ promoted last =>
        some { state with stage := if last then .idle else .listing promoted }
      | .working (record :: records) nowMs promoted last =>
        some (sweepRecord sha256 json promoter config state record records nowMs promoted last
          moment)
      | _ => none
    | .apply call => some { applyIfTrusted json state call with calls := state.calls ++ [call] }
    | .applyPromote position moment =>
      (state.applies[position]?).map fun apply ↦
        { state.promote sha256 json promoter apply.call.candidateId
            (trustedRequest apply.schemaId apply.relation apply.family) trustedActor moment with
          applies := state.applies.eraseIdx position }

end

/-! ## What one promotion does -/

theorem isReservedActor_actorFromHeaders (headers : Http.HeaderMap) :
    isReservedActor (actorFromHeaders headers) = false := by
  have hdefault : isReservedActor defaultActor = false := by decide
  unfold actorFromHeaders
  split
  · dsimp only
    split_ifs with hreserved
    · exact hdefault
    · simp only [Bool.or_eq_true, not_or, Bool.not_eq_true] at hreserved
      exact hreserved.2
  · exact hdefault

/-- An operator has neither of the actors of the unattended paths. -/
theorem actorFromHeaders_ne (headers : Http.HeaderMap) :
    actorFromHeaders headers ≠ autoPromoteActor ∧ actorFromHeaders headers ≠ trustedActor := by
  have hfree := isReservedActor_actorFromHeaders headers
  constructor
  · intro heq
    rw [heq] at hfree
    exact absurd hfree (by decide)
  · intro heq
    rw [heq] at hfree
    exact absurd hfree (by decide)

section

variable {sha256 : Bytes → Digest} {json : RecordJson} {promoter : Promoter}
  {config : AutoPromoteConfig} {evidence : EvidenceStore Profile} {vault : SchemaVault}
  {id : CandidateId} {body : PromoteBody} {actor : String} {moment : PromoteMoment}

theorem publishRecord_audit (json : RecordJson) (vault : SchemaVault) (record : SchemaRecord)
    (context : PublishContext) :
    (∃ error, publishRecord json vault record context = (.error error, vault)) ∨
      ∃ version next, publishRecord json vault record context = (.ok version, next) ∧
        next.registry.audit = vault.registry.audit ++
          [⟨context.actor, context.reason, record.schemaId, context.nowMs⟩] := by
  have hallocate (store : RegistryStore) (call : PublishCall) :
      (store.allocateVersion call).2.audit = store.audit := by
    unfold RegistryStore.allocateVersion
    split <;> rfl
  unfold publishRecord publishScript
  split_ifs
  · exact .inl ⟨_, rfl⟩
  · exact .inl ⟨_, rfl⟩
  · refine .inr ⟨_, _, rfl, ?_⟩
    simp [publishWrites, RegistryStore.appendAudit, RegistryStore.addListing,
      RegistryStore.addBucketMember, RegistryStore.addVariants, RegistryStore.writeAlias,
      RegistryStore.writeSchema, hallocate, publishCall]

/-- What a refusal says about the candidate. -/
def PromoteError.Explains (promoter : Promoter) (checkedMs : ℤ)
    (found : Option (CandidateRecord Profile)) : PromoteError → Prop
  | .notFound => found = none
  | .notProvisional state => ∃ current ∈ found, current.state = state ∧ state ≠ .provisional
  | .belowPolicy => ∃ current ∈ found, promoter.policy.check current checkedMs = false
  | .valueProfile _ | .publish _ => True

/-- A promotion changes nothing and says why, or it stages the candidate and adds one audit entry
about the schema of the candidate it found. -/
theorem promote_cases (sha256 : Bytes → Digest) (json : RecordJson) (promoter : Promoter)
    (evidence : EvidenceStore Profile) (vault : SchemaVault) (id : CandidateId)
    (body : PromoteBody) (actor : String) (moment : PromoteMoment) : (∃ error,
      promote sha256 json promoter evidence vault id body actor moment =
        (.error error, evidence, vault) ∧
      error.Explains promoter moment.checkedMs (getCandidate evidence id)) ∨
    ∃ current record next, getCandidate evidence id = some current ∧
      current.state = .provisional ∧ promoter.policy.check current moment.checkedMs = true ∧
      promote sha256 json promoter evidence vault id body actor moment =
        (.ok record, stageCandidate evidence id, next) ∧
      next.registry.audit = vault.registry.audit ++
        [⟨actor, body.reason, schemaOf sha256 current, moment.publishedMs⟩] := by
  unfold promote
  cases hfound : getCandidate evidence id with
  | none => exact .inl ⟨_, rfl, rfl⟩
  | some current =>
      by_cases hstate : current.state ≠ .provisional
      · simp only [if_pos hstate]
        exact .inl ⟨_, rfl, current, rfl, rfl, hstate⟩
      by_cases hpolicy : promoter.policy.check current moment.checkedMs = false
      · simp only [if_neg hstate, if_pos hpolicy]
        exact .inl ⟨_, rfl, current, rfl, hpolicy⟩
      simp only [if_neg hstate, if_neg hpolicy]
      split
      · exact .inl ⟨_, rfl, trivial⟩
      · rename_i captured hcaptured
        rcases publishRecord_audit json vault
          (draftRecord sha256 promoter id body actor moment current captured)
          (publishContext sha256 id body actor moment current) with
          ⟨error, hpublish⟩ | ⟨version, next, hpublish, haudit⟩
        · simp only [hpublish]
          exact .inl ⟨_, rfl, trivial⟩
        · simp only [hpublish]
          exact .inr ⟨current, _, next, rfl, not_not.mp hstate, by simpa using hpolicy, rfl, haudit⟩

/-! ## The audit trail -/

/-- The attempt is the promotion that the audit entry is about. -/
def Attempt.Accounts (sha256 : Bytes → Digest) (promoter : Promoter) (attempt : Attempt)
    (entry : AuditEntry) : Prop :=
  attempt.error = none ∧ attempt.actor = entry.actor ∧ attempt.body.reason = entry.reason ∧
    ∃ current ∈ attempt.found, current.state = .provisional ∧
      promoter.policy.check current attempt.checkedMs = true ∧
      entry.schema = schemaOf sha256 current

/-- What permits an attempt of the sweep: a record of a page that its policy accepts. -/
def Attempt.Swept (config : AutoPromoteConfig) (seen : List (CandidateRecord Profile × ℤ))
    (attempt : Attempt) : Prop :=
  ∃ record nowMs, (record, nowMs) ∈ seen ∧ attempt.id = record.candidateId ∧
    autoPromotes config record nowMs = true ∧ attempt.body = autoPromoteRequest record nowMs

/-- What permits an attempt of the trusted path: a call whose verdict is to apply. -/
def Attempt.Trusted (calls : List TrustedCall) (attempt : Attempt) : Prop :=
  ∃ call ∈ calls, ∃ schemaId relation family, attempt.id = call.candidateId ∧
    trustedVerdict call.decision call.inputs call.mode = .apply schemaId relation ∧
    attempt.body = trustedRequest schemaId relation family

/-- The promotions of the sweep that the audit trail shows. -/
def autoPromotions (vault : SchemaVault) : ℕ :=
  vault.registry.audit.countP fun entry ↦ entry.actor = autoPromoteActor

/-- The budget of the ticks so far: a running tick has made `promoted` promotions. -/
def SweepStage.Within (cap promotions ticks : ℕ) : SweepStage → Prop
  | .idle => promotions ≤ ticks * cap
  | .listing promoted | .working _ _ promoted _ =>
    promotions + cap ≤ ticks * cap + promoted ∧ promoted < cap

def SweepStage.records : SweepStage → List (CandidateRecord Profile × ℤ)
  | .working records nowMs _ _ => records.map fun record ↦ (record, nowMs)
  | _ => []

structure UnattendedInv (sha256 : Bytes → Digest) (promoter : Promoter) (config : AutoPromoteConfig)
    (state : UnattendedState) : Prop where
  audited : ∀ entry ∈ state.vault.registry.audit, ∃ attempt ∈ state.attempts,
    attempt.Accounts sha256 promoter entry
  swept : ∀ attempt ∈ state.attempts, attempt.actor = autoPromoteActor →
    attempt.Swept config state.seen
  trusted : ∀ attempt ∈ state.attempts, attempt.actor = trustedActor →
    attempt.Trusted state.calls
  records : ∀ record ∈ state.stage.records, record ∈ state.seen
  applies : ∀ apply ∈ state.applies, apply.call ∈ state.calls ∧
    trustedVerdict apply.call.decision apply.call.inputs apply.call.mode =
      .apply apply.schemaId apply.relation
  within : state.stage.Within (max 1 config.maxPromotionsPerTick) (autoPromotions state.vault)
    state.ticks

variable {state : UnattendedState}

/-- A promotion that is permitted keeps the books, whatever stage the sweep is in afterwards. -/
theorem UnattendedInv.promote (hinv : UnattendedInv sha256 promoter config state)
    (hswept : actor = autoPromoteActor →
      ∃ record nowMs, (record, nowMs) ∈ state.seen ∧ id = record.candidateId ∧
        autoPromotes config record nowMs = true ∧ body = autoPromoteRequest record nowMs)
    (htrusted : actor = trustedActor → ∃ call ∈ state.calls, ∃ schemaId relation family,
      id = call.candidateId ∧
        trustedVerdict call.decision call.inputs call.mode = .apply schemaId relation ∧
        body = trustedRequest schemaId relation family)
    {stage : SweepStage} {applies : List TrustedApply}
    (hstage : ∀ record ∈ stage.records, record ∈ state.seen)
    (happlies : ∀ apply ∈ applies, apply ∈ state.applies)
    (hwithin : stage.Within (max 1 config.maxPromotionsPerTick)
      (autoPromotions (state.promote sha256 json promoter id body actor moment).vault)
      state.ticks) :
    UnattendedInv sha256 promoter config
      { state.promote sha256 json promoter id body actor moment with
        stage := stage, applies := applies } := by
  refine ⟨fun entry hentry ↦ ?_, fun attempt hattempt hactor ↦ ?_, fun attempt hattempt hactor ↦ ?_,
    hstage, fun apply happly ↦ hinv.applies apply (happlies apply happly), hwithin⟩
  · have hold (hmem : entry ∈ state.vault.registry.audit) :
        ∃ attempt ∈ (state.promote sha256 json promoter id body actor moment).attempts,
          attempt.Accounts sha256 promoter entry := by
      rcases hinv.audited entry hmem with ⟨attempt, hattempt, haccounts⟩
      exact ⟨attempt, List.mem_append_left _ hattempt, haccounts⟩
    rcases promote_cases sha256 json promoter state.evidence state.vault id body actor moment with
      ⟨error, hpromote, -⟩ | ⟨current, record, next, hfound, hstate, hpolicy, hpromote, haudit⟩
    · simp only [UnattendedState.promote, hpromote] at hentry
      exact hold hentry
    · simp only [UnattendedState.promote, hpromote, haudit, List.mem_append,
        List.mem_singleton] at hentry
      rcases hentry with hmem | rfl
      · exact hold hmem
      · refine ⟨_, List.mem_append_right _ (List.mem_singleton.mpr rfl), ?_⟩
        exact ⟨by simp [hpromote, refusal], rfl, rfl, current, hfound, hstate, hpolicy, rfl⟩
  · rcases List.mem_append.mp hattempt with hmem | hnew
    · exact hinv.swept attempt hmem hactor
    · rw [List.mem_singleton] at hnew
      subst hnew
      exact hswept hactor
  · rcases List.mem_append.mp hattempt with hmem | hnew
    · exact hinv.trusted attempt hmem hactor
    · rw [List.mem_singleton] at hnew
      subst hnew
      exact htrusted hactor

theorem autoPromotions_promote (hactor : actor ≠ autoPromoteActor) :
    autoPromotions (state.promote sha256 json promoter id body actor moment).vault =
      autoPromotions state.vault := by
  rcases promote_cases sha256 json promoter state.evidence state.vault id body actor moment with
    ⟨error, hpromote, -⟩ | ⟨current, record, next, -, -, -, hpromote, haudit⟩
  · simp [UnattendedState.promote, hpromote]
  · simp [UnattendedState.promote, hpromote, autoPromotions, haudit, hactor]

theorem records_sweptStage {records : List (CandidateRecord Profile)} {nowMs : ℤ} {promoted : ℕ}
    {last done : Bool} {pair : CandidateRecord Profile × ℤ}
    (hpair : pair ∈ (sweptStage config records nowMs promoted last done).records) :
    pair ∈ records.map fun record ↦ (record, nowMs) := by
  unfold sweptStage at hpair
  split_ifs at hpair
  · simp [SweepStage.records] at hpair
  · exact hpair
  · exact hpair

/-- The sweep stays within its budget, whether the promotion succeeds or not. -/
theorem within_promote {records rest : List (CandidateRecord Profile)} {nowMs : ℤ} {promoted : ℕ}
    {last : Bool} (hwithin : (SweepStage.working records nowMs promoted last).Within
      (max 1 config.maxPromotionsPerTick) (autoPromotions state.vault) state.ticks) :
    (sweptStage config rest nowMs promoted last
      (Cold.promote sha256 json promoter state.evidence state.vault id body autoPromoteActor
        moment).1.isOk).Within (max 1 config.maxPromotionsPerTick)
      (autoPromotions (state.promote sha256 json promoter id body autoPromoteActor moment).vault)
      state.ticks := by
  rcases hwithin with ⟨hbudget, hcap⟩
  rcases promote_cases sha256 json promoter state.evidence state.vault id body autoPromoteActor
    moment with ⟨error, hpromote, -⟩ | ⟨current, published, next, -, -, -, hpromote, haudit⟩
  · simp only [UnattendedState.promote, hpromote]
    exact ⟨hbudget, hcap⟩
  · have hcount : autoPromotions next = autoPromotions state.vault + 1 := by
      simp [autoPromotions, haudit]
    simp only [UnattendedState.promote, hpromote, sweptStage, Except.isOk, Except.toBool, if_true]
    split_ifs with hreached
    · change autoPromotions next ≤ _
      omega
    · constructor <;> omega

theorem unattendedInv_step {event : UnattendedEvent} {after : UnattendedState}
    (hinv : UnattendedInv sha256 promoter config state)
    (hstep : (unattendedMachine sha256 json promoter config).step state event = some after) :
    UnattendedInv sha256 promoter config after := by
  cases event with
  | operator headers id body moment =>
      cases hstep
      rcases actorFromHeaders_ne headers with ⟨hauto, htrusted⟩
      refine hinv.promote (fun heq ↦ absurd heq hauto) (fun heq ↦ absurd heq htrusted) hinv.records
        (fun _ hmem ↦ hmem) ?_
      rw [autoPromotions_promote hauto]
      exact hinv.within
  | name id label source metadata =>
      cases hstep
      have hregistry : (setSchemaName state.vault id label source metadata).2.registry =
          state.vault.registry := by
        unfold setSchemaName
        split_ifs <;> rfl
      refine ⟨?_, hinv.swept, hinv.trusted, hinv.records, hinv.applies, ?_⟩
      · rw [hregistry]
        exact hinv.audited
      · unfold autoPromotions
        rw [hregistry]
        exact hinv.within
  | evidence store =>
      cases hstep
      exact ⟨hinv.audited, hinv.swept, hinv.trusted, hinv.records, hinv.applies, hinv.within⟩
  | tick =>
      simp only [unattendedMachine] at hstep
      split at hstep
      · rename_i hidle
        cases hstep
        refine ⟨hinv.audited, hinv.swept, hinv.trusted, by simp [SweepStage.records],
          hinv.applies, ?_⟩
        have hwithin := hinv.within
        rw [hidle] at hwithin
        simp only [SweepStage.Within] at hwithin ⊢
        constructor
        · rw [Nat.succ_mul]
          omega
        · omega
      · cases hstep
  | shutdown =>
      simp only [unattendedMachine] at hstep
      split at hstep
      · rename_i promoted hlisting
        cases hstep
        refine ⟨hinv.audited, hinv.swept, hinv.trusted, by simp [SweepStage.records],
          hinv.applies, ?_⟩
        have hwithin := hinv.within
        rw [hlisting] at hwithin
        simp only [SweepStage.Within] at hwithin ⊢
        omega
      · cases hstep
  | page reply nowMs =>
      simp only [unattendedMachine] at hstep
      split at hstep
      · rename_i promoted reply hlisting
        cases hstep
        refine ⟨hinv.audited, fun attempt hattempt hactor ↦ ?_, hinv.trusted, ?_, hinv.applies, ?_⟩
        · rcases hinv.swept attempt hattempt hactor with ⟨record, pageMs, hseen, hpermitted⟩
          exact ⟨record, pageMs, List.mem_append_left _ hseen, hpermitted⟩
        · intro record hrecord
          exact List.mem_append_right _ hrecord
        · have hwithin := hinv.within
          rw [hlisting] at hwithin
          exact hwithin
      · rename_i promoted hlisting
        cases hstep
        refine ⟨hinv.audited, hinv.swept, hinv.trusted, by simp [SweepStage.records],
          hinv.applies, ?_⟩
        have hwithin := hinv.within
        rw [hlisting] at hwithin
        simp only [SweepStage.Within] at hwithin ⊢
        omega
      · cases hstep
  | next moment =>
      simp only [unattendedMachine] at hstep
      have hwithin := hinv.within
      have hrecords := hinv.records
      split at hstep
      · rename_i nowMs promoted last hworking
        cases hstep
        rw [hworking] at hwithin
        simp only [SweepStage.Within] at hwithin
        refine ⟨hinv.audited, hinv.swept, hinv.trusted, ?_, hinv.applies, ?_⟩
        · cases last <;> simp [SweepStage.records]
        · cases last
          · exact hwithin
          · change autoPromotions state.vault ≤ state.ticks * _
            omega
      · rename_i record records nowMs promoted last hworking
        cases hstep
        rw [hworking] at hwithin hrecords
        have hrest (pair : CandidateRecord Profile × ℤ)
            (hpair : pair ∈ records.map fun record ↦ (record, nowMs)) : pair ∈ state.seen :=
          hrecords pair (List.mem_cons_of_mem _ hpair)
        unfold sweepRecord
        split_ifs with hpromotes
        · exact hinv.promote (fun _ ↦ ⟨record, nowMs, hrecords _ List.mem_cons_self, rfl,
            hpromotes, rfl⟩) (fun heq ↦ absurd heq (by decide))
            (fun pair hpair ↦ hrest pair (records_sweptStage hpair)) (fun _ hmem ↦ hmem)
            (within_promote hwithin)
        · exact ⟨hinv.audited, hinv.swept, hinv.trusted, hrest, hinv.applies, hwithin⟩
      · cases hstep
  | apply call =>
      cases hstep
      have hcalls {attempt : Attempt} (htrusted : attempt.Trusted state.calls) :
          attempt.Trusted (state.calls ++ [call]) := by
        rcases htrusted with ⟨own, hown, hpermitted⟩
        exact ⟨own, List.mem_append_left _ hown, hpermitted⟩
      have hold (apply : TrustedApply) (hmem : apply ∈ state.applies) :
          apply.call ∈ state.calls ++ [call] ∧
            trustedVerdict apply.call.decision apply.call.inputs apply.call.mode =
              .apply apply.schemaId apply.relation := by
        rcases hinv.applies apply hmem with ⟨hcall, hverdict⟩
        exact ⟨List.mem_append_left _ hcall, hverdict⟩
      unfold applyIfTrusted
      split
      · rename_i schemaId relation hverdict
        split
        · refine ⟨hinv.audited, hinv.swept, fun attempt hattempt hactor ↦
            hcalls (hinv.trusted attempt hattempt hactor), hinv.records, fun apply happly ↦ ?_,
            hinv.within⟩
          rcases List.mem_cons.mp happly with rfl | hmem
          · exact ⟨List.mem_append_right _ (List.mem_singleton.mpr rfl), hverdict⟩
          · exact hold apply hmem
        · exact ⟨hinv.audited, hinv.swept, fun attempt hattempt hactor ↦
            hcalls (hinv.trusted attempt hattempt hactor), hinv.records, hold, hinv.within⟩
      all_goals
        exact ⟨hinv.audited, hinv.swept, fun attempt hattempt hactor ↦
          hcalls (hinv.trusted attempt hattempt hactor), hinv.records, hold, hinv.within⟩
  | applyPromote position moment =>
      rcases Option.map_eq_some_iff.mp hstep with ⟨apply, happly, rfl⟩
      have hmem : apply ∈ state.applies := List.mem_of_getElem? happly
      rcases hinv.applies apply hmem with ⟨hcall, hverdict⟩
      refine hinv.promote (fun heq ↦ absurd heq (by decide)) (fun _ ↦ ⟨apply.call, hcall,
        apply.schemaId, apply.relation, apply.family, rfl, hverdict, rfl⟩) hinv.records
        (fun _ hother ↦ List.mem_of_mem_eraseIdx hother) ?_
      rw [autoPromotions_promote (by decide)]
      exact hinv.within

theorem unattendedInv_reachable
    (reached : (unattendedMachine sha256 json promoter config).Reachable Machine.always state) :
    UnattendedInv sha256 promoter config state := by
  refine reached.invariant ?_ fun _ _ _ hinv _ hstep ↦ unattendedInv_step hinv hstep
  constructor <;> simp [unattendedMachine, SchemaVault.empty, RegistryStore.empty,
    SweepStage.records, SweepStage.Within, autoPromotions]

end

/-! ## A fixed tick -/

def sweepConfig : AutoPromoteConfig := ⟨true, 1, 0, 1, 1 / 2, 30000, ["orders"], 20⟩

def sweepJson : RecordJson := jsonKnowing draftA

def sweepMoment : PromoteMoment := momentA ordersFamily

def sweepMachine : Machine UnattendedState UnattendedEvent :=
  unattendedMachine ordersSha256 sweepJson promoterA sweepConfig

/-- A tick has started over two provisional candidates, one of them from an allowed source. -/
def sweepStart : UnattendedState :=
  ⟨evidenceA, .empty, .listing 0, [], [], 1, {id | id ∈ evidenceA.listed .provisional}, [], [], []⟩

def sweepReply : ScanReply := ⟨[promotedA, billingA], true⟩

/-- The page of both candidates was read. -/
def sweepPaged : UnattendedState :=
  { sweepStart with
    stage := .working [recordA promotedA "orders", recordA billingA "billing"] 0 0 true
    owed := sweepStart.owed \ {id | id ∈ sweepReply.keys}
    seen := [(recordA promotedA "orders", 0), (recordA billingA "billing", 0)] }

def sweptOrders : UnattendedState :=
  { sweepPaged.promote ordersSha256 sweepJson promoterA promotedA
      (autoPromoteRequest (recordA promotedA "orders") 0) autoPromoteActor sweepMoment with
    stage := .working [recordA billingA "billing"] 0 1 true }

theorem autoPromotes_orders : autoPromotes sweepConfig (recordA promotedA "orders") 0 = true := by
  decide +kernel

theorem autoPromotes_billing : autoPromotes sweepConfig (recordA billingA "billing") 0 = false := by
  decide +kernel

theorem isOk_promote_orders : (Cold.promote ordersSha256 sweepJson promoterA evidenceA .empty
    promotedA (autoPromoteRequest (recordA promotedA "orders") 0) autoPromoteActor
    sweepMoment).1.isOk = true := by
  rw [promote_ok getCandidate_evidenceA.1 rfl rfl rfl rfl]
  rfl

theorem sweepMachine_page :
    sweepMachine.step sweepStart (.page (some sweepReply) 0) = some sweepPaged := by
  have hpage : listCandidates evidenceA sweepReply.keys =
      [recordA promotedA "orders", recordA billingA "billing"] := by
    simp [listCandidates, sweepReply, getCandidate_evidenceA]
  simp only [sweepMachine, unattendedMachine, sweepStart, hpage]
  rfl

theorem sweepMachine_next :
    sweepMachine.step sweepPaged (.next sweepMoment) = some sweptOrders := by
  change some (sweepRecord ordersSha256 sweepJson promoterA sweepConfig sweepPaged
    (recordA promotedA "orders") [recordA billingA "billing"] 0 0 true sweepMoment) = _
  rw [sweepRecord, if_pos autoPromotes_orders]
  have hok : (Cold.promote ordersSha256 sweepJson promoterA sweepPaged.evidence sweepPaged.vault
      (recordA promotedA "orders").candidateId (autoPromoteRequest (recordA promotedA "orders") 0)
      autoPromoteActor sweepMoment).1.isOk = true := isOk_promote_orders
  rw [hok]
  rfl

theorem sweepMachine_skip : sweepMachine.step sweptOrders (.next sweepMoment) =
    some { sweptOrders with stage := .working [] 0 1 true } := by
  change some (sweepRecord ordersSha256 sweepJson promoterA sweepConfig sweptOrders
    (recordA billingA "billing") [] 0 1 true sweepMoment) = _
  rw [sweepRecord, if_neg (by rw [autoPromotes_billing]; exact Bool.false_ne_true)]

theorem sweepMachine_start : sweepMachine.Reachable Machine.always sweepStart := by
  have hevidence : sweepMachine.step sweepMachine.init (.evidence evidenceA) =
      some { sweepMachine.init with evidence := evidenceA } := rfl
  have htick : sweepMachine.step { sweepMachine.init with evidence := evidenceA } .tick =
      some sweepStart := rfl
  exact (Machine.ReachableFrom.refl.step trivial hevidence).step trivial htick

theorem sweepMachine_orders : sweepMachine.Reachable Machine.always sweptOrders :=
  (sweepMachine_start.step trivial sweepMachine_page).step trivial sweepMachine_next

/-! ## Whole runs -/

/-- Every audit entry is about one attempt of the promoter that found a provisional candidate past
the manual policy. An entry of the sweep stands for a record of a page that the automatic policy
accepts, from a source that an operator named; one of the trusted path for a call that may apply, an
eligible match that every gate passes. Nobody else has either actor, whatever headers they send. -/
theorem audit_honest (sha256 : Bytes → Digest) (json : RecordJson) (promoter : Promoter)
    (config : AutoPromoteConfig) (state : UnattendedState)
    (reached : (unattendedMachine sha256 json promoter config).Reachable Machine.always state) :
    ∀ entry ∈ state.vault.registry.audit, ∃ attempt ∈ state.attempts,
      attempt.Accounts sha256 promoter entry ∧
      (entry.actor = autoPromoteActor → ∃ record nowMs, (record, nowMs) ∈ state.seen ∧
        attempt.id = record.candidateId ∧
        sourceAllowed record.source config.allowedSources = true ∧
        config.toPolicy.eligible .ok record nowMs = .ok () ∧
        entry.reason = (autoPromoteRequest record nowMs).reason) ∧
      (entry.actor = trustedActor → ∃ call ∈ state.calls, call.mode = .autoApply ∧
        attempt.id = call.candidateId ∧ (evaluatePolicy call.inputs).wouldAccept = true ∧
        ∃ schemaId relation family, call.decision = .matchSchema schemaId relation ∧
          relation.eligible = true ∧
          entry.reason = (trustedRequest schemaId relation family).reason) := by
  have hinv := unattendedInv_reachable reached
  intro entry hentry
  rcases hinv.audited entry hentry with ⟨attempt, hattempt, haccounts⟩
  rcases haccounts with ⟨herror, hactor, hreason, hcurrent⟩
  refine ⟨attempt, hattempt, ⟨herror, hactor, hreason, hcurrent⟩, fun hauto ↦ ?_, fun htrusted ↦ ?_⟩
  · rcases hinv.swept attempt hattempt (hactor.trans hauto) with
      ⟨record, nowMs, hseen, hid, hpromotes, hbody⟩
    rw [autoPromotes, Bool.and_eq_true] at hpromotes
    refine ⟨record, nowMs, hseen, hid, hpromotes.1, ?_, by rw [← hreason, hbody]⟩
    cases heligible : config.toPolicy.eligible .ok record nowMs with
    | ok value => rfl
    | error err => simp [heligible, Except.isOk, Except.toBool] at hpromotes
  · rcases hinv.trusted attempt hattempt (hactor.trans htrusted) with
      ⟨call, hcall, schemaId, relation, family, hid, hverdict, hbody⟩
    refine ⟨call, hcall, ?_⟩
    rcases call with ⟨decision, inputs, mode, candidateId⟩
    cases decision with
    | newCandidate novelty => cases hverdict
    | abstain cause => cases hverdict
    | matchSchema matched found =>
        simp only [trustedVerdict] at hverdict
        split_ifs at hverdict with hmatch haccept
        cases mode with
        | proposeOnly => cases hverdict
        | autoApply =>
            cases hverdict
            exact ⟨rfl, hid, by simpa using haccept, schemaId, relation, family, rfl,
              by simpa [InferenceDecision.isAcceptedMatch] using hmatch, by rw [← hreason, hbody]⟩

theorem audit_honest_orders : ∃ entry ∈ sweptOrders.vault.registry.audit,
    entry.actor = autoPromoteActor ∧ ∃ attempt ∈ sweptOrders.attempts,
      attempt.Accounts ordersSha256 promoterA entry := by
  have hpromoted := isOk_promote_orders
  rcases promote_cases ordersSha256 sweepJson promoterA evidenceA .empty promotedA
    (autoPromoteRequest (recordA promotedA "orders") 0) autoPromoteActor sweepMoment with
    ⟨error, hpromote, -⟩ | ⟨current, record, next, -, -, -, hpromote, haudit⟩
  · rw [hpromote] at hpromoted
    cases hpromoted
  · have hnext : sweptOrders.vault = next := by
      change (Cold.promote ordersSha256 sweepJson promoterA evidenceA .empty promotedA
        (autoPromoteRequest (recordA promotedA "orders") 0) autoPromoteActor sweepMoment).2.2 = next
      rw [hpromote]
    refine ⟨_, by rw [hnext, haudit]; exact List.mem_singleton.mpr rfl, rfl, ?_⟩
    rcases audit_honest ordersSha256 sweepJson promoterA sweepConfig sweptOrders sweepMachine_orders
      _ (by rw [hnext, haudit]; exact List.mem_singleton.mpr rfl) with
      ⟨attempt, hattempt, haccounts, -⟩
    exact ⟨attempt, hattempt, haccounts⟩

/-- However the calls interleave, the sweep has made at most its cap of promotions for each tick. -/
theorem autoPromotions_le (sha256 : Bytes → Digest) (json : RecordJson) (promoter : Promoter)
    (config : AutoPromoteConfig) (state : UnattendedState)
    (reached : (unattendedMachine sha256 json promoter config).Reachable Machine.always state) :
    autoPromotions state.vault ≤ state.ticks * max 1 config.maxPromotionsPerTick := by
  have hinv := unattendedInv_reachable reached
  have hwithin := hinv.within
  cases hstage : state.stage <;> rw [hstage] at hwithin <;> simp only [SweepStage.Within] at hwithin
    <;> omega

theorem autoPromotions_le_orders : autoPromotions sweptOrders.vault ≤ 20 :=
  autoPromotions_le ordersSha256 sweepJson promoterA sweepConfig sweptOrders sweepMachine_orders

/-! ## A tick that nothing disturbs -/

section

variable {sha256 : Bytes → Digest} {json : RecordJson} {promoter : Promoter}
  {config : AutoPromoteConfig} {evidence : EvidenceStore Profile} {id other : CandidateId}

/-- The clock does not go back, pages can be read, and the last one leaves no listed candidate out.
Other promotions and namings may come in between. -/
def undisturbedTick (earliestMs : ℤ) (state : UnattendedState) : UnattendedEvent → Prop
  | .page reply nowMs => earliestMs ≤ nowMs ∧ ∃ page, reply = some page ∧
      (page.last = true → ∀ id ∈ state.owed, id ∈ state.evidence.listed .provisional →
        id ∈ page.keys)
  | .next moment => ∀ records nowMs promoted last,
      state.stage = .working records nowMs promoted last → nowMs ≤ moment.checkedMs
  | .evidence _ | .tick | .shutdown => False
  | .operator .. | .name .. | .apply _ | .applyPromote .. => True

/-- A candidate stays eligible while it waits. -/
theorem eligible_mono {policy : AutoPromotePolicy} {record : CandidateRecord Profile}
    {earliestMs nowMs : ℤ} (hle : earliestMs ≤ nowMs)
    (heligible : policy.eligible .ok record earliestMs = .ok ()) :
    policy.eligible .ok record nowMs = .ok () := by
  unfold AutoPromotePolicy.eligible at heligible ⊢
  split_ifs at heligible with hsamples hage
  rw [if_neg hsamples, if_neg (by omega)]
  exact heligible

/-- A validated configuration accepts nothing that the manual policy refuses. -/
theorem check_of_eligible (hvalid : config.validate promoter.policy = .ok ())
    (henabled : config.enabled = true) {record : CandidateRecord Profile} {nowMs checkedMs : ℤ}
    (hle : nowMs ≤ checkedMs)
    (heligible : config.toPolicy.eligible .ok record nowMs = .ok ()) :
    promoter.policy.check record checkedMs = true := by
  have hstricter : promoter.policy.minSamples ≤ config.minSamples ∧
      promoter.policy.minAgeMs ≤ config.minAgeMs := by
    unfold AutoPromoteConfig.validate at hvalid
    rw [henabled, Bool.not_true, if_neg Bool.false_ne_true] at hvalid
    split_ifs at hvalid
    omega
  unfold AutoPromotePolicy.eligible AutoPromoteConfig.toPolicy at heligible
  split_ifs at heligible with hfew hyoung
  simp only [PromotionPolicy.check, Bool.and_eq_true, decide_eq_true_eq]
  simp only at hfew hyoung
  omega

/-- Staging a provisional candidate changes its state and its listing and nothing else. -/
theorem stageCandidate_spec (hstate : stateOf evidence id = some .provisional) :
    stateOf (stageCandidate evidence id) id = some .staged ∧
      ∀ other, other ≠ id → getCandidate (stageCandidate evidence id) other =
          getCandidate evidence other ∧
        ∀ listing, other ∈ (stageCandidate evidence id).listed listing ↔
          other ∈ evidence.listed listing := by
  rcases Option.map_eq_some_iff.mp hstate with ⟨hash, hhash, hprovisional⟩
  have hscript : setStateScript evidence id .staged = .ok { evidence with
      candidates := Function.update evidence.candidates id
        (some { hash with state := .staged }) } := by
    simp [setStateScript, hhash, hprovisional]
  unfold stageCandidate
  rw [hscript]
  refine ⟨by simp [stateOf, indexState], fun other hother ↦
    ⟨by simp [getCandidate, indexState, hother], ?_⟩⟩
  intro listing
  rw [mem_indexState, if_neg hother]

theorem stateOf_of_getCandidate {record : CandidateRecord Profile}
    (hfound : getCandidate evidence id = some record) :
    stateOf evidence id = some record.state := by
  rcases Option.map_eq_some_iff.mp hfound with ⟨hash, hhash, rfl⟩
  simp [stateOf, hhash]

theorem stateOf_congr {next : EvidenceStore Profile}
    (hsame : getCandidate next id = getCandidate evidence id) :
    stateOf next id = stateOf evidence id := by
  have hread (store : EvidenceStore Profile) :
      stateOf store id = (getCandidate store id).map CandidateRecord.state := by
    cases hhash : store.candidates id <;> simp [stateOf, getCandidate, hhash]
  rw [hread, hread, hsame]

/-- The registry or the value profiles refused the promotion. -/
def PromoteError.byStore : PromoteError → Bool
  | .valueProfile _ | .publish _ => true
  | _ => false

/-- The candidate is staged, or the sweep tried to promote it and a store refused. -/
def Attended (state : UnattendedState) (tail : List Attempt) (id : CandidateId) : Prop :=
  stateOf state.evidence id = some .staged ∨ ∃ attempt ∈ tail, attempt.id = id ∧
    attempt.actor = autoPromoteActor ∧ ∃ error ∈ attempt.error, error.byStore = true

/-- The candidate is as it was, in the listing that the sweep reads. -/
def Waits (state : UnattendedState) (id : CandidateId) (record : CandidateRecord Profile) : Prop :=
  getCandidate state.evidence id = some record ∧ id ∈ state.evidence.listed .provisional

/-- The rest of the tick comes to the candidate. -/
def SweepStage.Expects (owed : Set CandidateId) (id : CandidateId)
    (record : CandidateRecord Profile) : SweepStage → Prop
  | .idle => False
  | .listing _ => id ∈ owed
  | .working records _ _ last => record ∈ records ∨ (last = false ∧ id ∈ owed)

/-- The promotions that the sweep made among the attempts. -/
def sweptIn (tail : List Attempt) : ℕ :=
  tail.countP fun attempt ↦ attempt.actor = autoPromoteActor && attempt.error.isNone

def SweepStage.Counts (earliestMs : ℤ) (swept : ℕ) : SweepStage → Prop
  | .idle => True
  | .listing promoted => promoted = swept
  | .working _ nowMs promoted _ => promoted = swept ∧ earliestMs ≤ nowMs

/-- The candidates that the sweep should promote, as they are when the tick starts. -/
structure Wanted (config : AutoPromoteConfig) (earliestMs : ℤ) (start : UnattendedState)
    (id : CandidateId) (record : CandidateRecord Profile) : Prop where
  found : getCandidate start.evidence id = some record
  keyed : record.candidateId = id
  listed : id ∈ start.evidence.listed .provisional
  state : record.state = .provisional
  source : sourceAllowed record.source config.allowedSources = true
  eligible : config.toPolicy.eligible .ok record earliestMs = .ok ()

/-- What holds during a tick: its cap is reached, or every wanted candidate is handled or waits for
the rest of the tick. -/
structure TickInv (config : AutoPromoteConfig) (earliestMs : ℤ) (start state : UnattendedState)
    (tail : List Attempt) : Prop where
  attempts : state.attempts = start.attempts ++ tail
  counts : state.stage.Counts earliestMs (sweptIn tail)
  outcome : state.stage = .idle ∧ config.maxPromotionsPerTick ≤ sweptIn tail ∨
    ∀ id record, Wanted config earliestMs start id record → Attended state tail id ∨
      (Waits state id record ∧ state.stage.Expects state.owed id record)

variable {state : UnattendedState} {body : PromoteBody} {actor : String} {moment : PromoteMoment}

/-- The attempt that a promotion adds. -/
def UnattendedState.attempt (sha256 : Bytes → Digest) (json : RecordJson) (promoter : Promoter)
    (state : UnattendedState) (id : CandidateId) (body : PromoteBody) (actor : String)
    (moment : PromoteMoment) : Attempt :=
  ⟨id, body, actor, getCandidate state.evidence id, moment.checkedMs,
    refusal (Cold.promote sha256 json promoter state.evidence state.vault id body actor moment).1⟩

/-- A promotion of any candidate stages it or changes no evidence. -/
theorem evidence_promote (sha256 : Bytes → Digest) (json : RecordJson) (promoter : Promoter)
    (state : UnattendedState) (id : CandidateId) (body : PromoteBody) (actor : String)
    (moment : PromoteMoment) :
    ((state.promote sha256 json promoter id body actor moment).evidence = state.evidence ∧
        ∃ error, (state.attempt sha256 json promoter id body actor moment).error = some error ∧
          error.Explains promoter moment.checkedMs (getCandidate state.evidence id)) ∨
      (stateOf state.evidence id = some .provisional ∧
        (state.promote sha256 json promoter id body actor moment).evidence =
          stageCandidate state.evidence id ∧
        (state.attempt sha256 json promoter id body actor moment).error = none) := by
  rcases promote_cases sha256 json promoter state.evidence state.vault id body actor moment with
    ⟨error, hpromote, hexplains⟩ | ⟨current, record, next, hfound, hstate, -, hpromote, -⟩
  · simp only [UnattendedState.promote, UnattendedState.attempt, hpromote, refusal]
    exact .inl ⟨trivial, error, rfl, hexplains⟩
  · simp only [UnattendedState.promote, UnattendedState.attempt, hpromote, refusal]
    exact .inr ⟨by rw [stateOf_of_getCandidate hfound, hstate], trivial, trivial⟩

theorem Attended.promote {tail : List Attempt} (hattended : Attended state tail id)
    (next : Attempt) :
    Attended (state.promote sha256 json promoter other body actor moment) (tail ++ [next]) id := by
  rcases hattended with hstaged | ⟨attempt, hattempt, hrefused⟩
  · left
    rcases evidence_promote sha256 json promoter state other body actor moment with
      ⟨hsame, -⟩ | ⟨hprovisional, hevidence, -⟩
    · rw [hsame]
      exact hstaged
    · have hne : id ≠ other := by
        rintro rfl
        rw [hstaged] at hprovisional
        cases hprovisional
      rw [hevidence, stateOf_congr ((stageCandidate_spec hprovisional).2 id hne).1]
      exact hstaged
  · exact .inr ⟨attempt, List.mem_append_left _ hattempt, hrefused⟩

/-- A waiting candidate goes on waiting, unless it is the one that was staged. -/
theorem Waits.promote {record : CandidateRecord Profile} (hwaits : Waits state id record)
    (sha256 : Bytes → Digest) (json : RecordJson) (promoter : Promoter) (other : CandidateId)
    (body : PromoteBody) (actor : String) (moment : PromoteMoment) :
    stateOf (state.promote sha256 json promoter other body actor moment).evidence id =
        some .staged ∨
      Waits (state.promote sha256 json promoter other body actor moment) id record := by
  rcases evidence_promote sha256 json promoter state other body actor moment with
    ⟨hsame, -⟩ | ⟨hprovisional, hevidence, -⟩
  · right
    unfold Waits
    rw [hsame]
    exact hwaits
  · unfold Waits
    rw [hevidence]
    by_cases hother : id = other
    · subst hother
      exact .inl (stageCandidate_spec hprovisional).1
    · rcases (stageCandidate_spec hprovisional).2 id hother with ⟨hfound, hlisted⟩
      rw [hfound, hlisted]
      exact .inr hwaits

/-- A promotion by somebody else leaves the tick where it is. -/
theorem TickInv.promote {earliestMs : ℤ} {start : UnattendedState} {tail : List Attempt}
    (hinv : TickInv config earliestMs start state tail) (hactor : actor ≠ autoPromoteActor)
    (applies : List TrustedApply) :
    TickInv config earliestMs start
      { state.promote sha256 json promoter id body actor moment with applies := applies }
      (tail ++ [state.attempt sha256 json promoter id body actor moment]) := by
  have hswept : sweptIn (tail ++ [state.attempt sha256 json promoter id body actor moment]) =
      sweptIn tail := by
    simp [sweptIn, UnattendedState.attempt, hactor]
  refine ⟨?_, ?_, ?_⟩
  · change state.attempts ++ [state.attempt sha256 json promoter id body actor moment] = _
    rw [hinv.attempts, List.append_assoc]
  · rw [hswept]
    exact hinv.counts
  · rw [hswept]
    refine hinv.outcome.imp_right fun houtcome found record hwanted ↦ ?_
    rcases houtcome found record hwanted with hattended | ⟨hwaits, hexpects⟩
    · exact .inl (hattended.promote _)
    · rcases hwaits.promote sha256 json promoter id body actor moment with hstaged | hwaits
      · exact .inl (.inl hstaged)
      · exact .inr ⟨hwaits, hexpects⟩

theorem isOk_promote (sha256 : Bytes → Digest) (json : RecordJson) (promoter : Promoter)
    (state : UnattendedState) (id : CandidateId) (body : PromoteBody) (actor : String)
    (moment : PromoteMoment) :
    (Cold.promote sha256 json promoter state.evidence state.vault id body actor moment).1.isOk =
      (state.attempt sha256 json promoter id body actor moment).error.isNone := by
  unfold UnattendedState.attempt refusal
  split <;> rename_i heq <;> rw [heq] <;> rfl

/-- When the sweep comes to a wanted candidate that waits, it is staged or a store refuses. -/
theorem Wanted.handled {earliestMs nowMs : ℤ} {start : UnattendedState}
    {wanted : CandidateRecord Profile} (hwanted : Wanted config earliestMs start id wanted)
    (hwaits : Waits state id wanted) (hvalid : config.validate promoter.policy = .ok ())
    (henabled : config.enabled = true) (hearliest : earliestMs ≤ nowMs)
    (hclock : nowMs ≤ moment.checkedMs) (sha256 : Bytes → Digest) (json : RecordJson)
    (tail : List Attempt) :
    Attended (state.promote sha256 json promoter wanted.candidateId
      (autoPromoteRequest wanted nowMs) autoPromoteActor moment)
      (tail ++ [state.attempt sha256 json promoter wanted.candidateId
        (autoPromoteRequest wanted nowMs) autoPromoteActor moment]) id := by
  rcases evidence_promote sha256 json promoter state wanted.candidateId
    (autoPromoteRequest wanted nowMs) autoPromoteActor moment with
    ⟨-, error, herror, hexplains⟩ | ⟨hprovisional, hevidence, -⟩
  · refine .inr ⟨_, List.mem_append_right _ (List.mem_singleton.mpr rfl), hwanted.keyed, rfl, error,
      herror, ?_⟩
    rw [hwanted.keyed, hwaits.1] at hexplains
    cases error with
    | notFound => cases hexplains
    | notProvisional found =>
        rcases hexplains with ⟨current, hcurrent, hstate, hother⟩
        cases hcurrent
        exact absurd (hstate.symm.trans hwanted.state) hother
    | belowPolicy =>
        rcases hexplains with ⟨current, hcurrent, hbelow⟩
        cases hcurrent
        rw [check_of_eligible hvalid henabled hclock
          (eligible_mono hearliest hwanted.eligible)] at hbelow
        cases hbelow
    | valueProfile message => rfl
    | publish error => rfl
  · left
    rw [hevidence, hwanted.keyed]
    rw [hwanted.keyed] at hprovisional
    exact (stageCandidate_spec hprovisional).1

/-- The sweep's own work on a record: what it promotes is handled, and the others wait on. -/
theorem TickInv.sweepRecord {earliestMs nowMs : ℤ} {start : UnattendedState} {tail : List Attempt}
    (hinv : TickInv config earliestMs start state tail)
    (hvalid : config.validate promoter.policy = .ok ()) (henabled : config.enabled = true)
    {record : CandidateRecord Profile} {records : List (CandidateRecord Profile)} {promoted : ℕ}
    {last : Bool} (hworking : state.stage = .working (record :: records) nowMs promoted last)
    (hclock : nowMs ≤ moment.checkedMs) :
    ∃ tail, TickInv config earliestMs start (Cold.sweepRecord sha256 json promoter config state
      record records nowMs promoted last moment) tail := by
  have hcounts := hinv.counts
  have houtcome := hinv.outcome
  rw [hworking] at hcounts houtcome
  rcases hcounts with ⟨rfl, hearliest⟩
  have hwaiting := houtcome.resolve_left fun hidle ↦ by cases hidle.1
  unfold Cold.sweepRecord
  split_ifs with hpromotes
  · rw [isOk_promote]
    generalize hnew : state.attempt sha256 json promoter record.candidateId
      (autoPromoteRequest record nowMs) autoPromoteActor moment = new
    have hactor : new.actor = autoPromoteActor := by
      rw [← hnew]
      rfl
    have hattempts : (state.promote sha256 json promoter record.candidateId
        (autoPromoteRequest record nowMs) autoPromoteActor moment).attempts =
          start.attempts ++ (tail ++ [new]) := by
      rw [← hnew, ← List.append_assoc, ← hinv.attempts]
      rfl
    have hnext (found : CandidateId) (wanted : CandidateRecord Profile)
        (hwanted : Wanted config earliestMs start found wanted) :
        Attended (state.promote sha256 json promoter record.candidateId
            (autoPromoteRequest record nowMs) autoPromoteActor moment) (tail ++ [new]) found ∨
          (Waits (state.promote sha256 json promoter record.candidateId
            (autoPromoteRequest record nowMs) autoPromoteActor moment) found wanted ∧
            (wanted ∈ records ∨ (last = false ∧ found ∈ state.owed))) := by
      rcases hwaiting found wanted hwanted with hattended | ⟨hwaits, hexpects⟩
      · exact .inl (hattended.promote new)
      · by_cases hsame : wanted = record
        · subst hsame
          rw [← hnew]
          exact .inl (hwanted.handled hwaits hvalid henabled hearliest hclock sha256 json tail)
        · rcases hwaits.promote sha256 json promoter record.candidateId
            (autoPromoteRequest record nowMs) autoPromoteActor moment with hstaged | hstill
          · exact .inl (.inl hstaged)
          · refine .inr ⟨hstill, hexpects.imp_left fun hmem ↦ ?_⟩
            exact (List.mem_cons.mp hmem).resolve_left hsame
    cases herror : new.error with
    | some error =>
        have hswept : sweptIn (tail ++ [new]) = sweptIn tail := by simp [sweptIn, herror]
        refine ⟨tail ++ [new], hattempts, ?_, .inr hnext⟩
        rw [hswept]
        exact ⟨rfl, hearliest⟩
    | none =>
        have hswept : sweptIn (tail ++ [new]) = sweptIn tail + 1 := by
          simp [sweptIn, herror, hactor]
        by_cases hreached : config.maxPromotionsPerTick ≤ sweptIn tail + 1
        · refine ⟨tail ++ [new], hattempts, ?_, .inl ⟨?_, ?_⟩⟩
          · simp [sweptStage, hreached, SweepStage.Counts]
          · simp [sweptStage, hreached]
          · rw [hswept]
            exact hreached
        · refine ⟨tail ++ [new], hattempts, ?_, .inr ?_⟩
          · simp only [sweptStage, Option.isNone_none, if_true, if_neg hreached, hswept]
            exact ⟨rfl, hearliest⟩
          · simp only [sweptStage, Option.isNone_none, if_true, if_neg hreached]
            exact hnext
  · refine ⟨tail, hinv.attempts, ⟨rfl, hearliest⟩, .inr fun found wanted hwanted ↦ ?_⟩
    rcases hwaiting found wanted hwanted with hattended | ⟨hwaits, hexpects⟩
    · exact .inl hattended
    · refine .inr ⟨hwaits, hexpects.imp_left fun hmem ↦ ?_⟩
      refine (List.mem_cons.mp hmem).resolve_left ?_
      rintro rfl
      apply hpromotes
      rw [autoPromotes, hwanted.source, eligible_mono hearliest hwanted.eligible]
      rfl

theorem applyIfTrusted_same (json : RecordJson) (state : UnattendedState) (call : TrustedCall) :
    (applyIfTrusted json state call).evidence = state.evidence ∧
      (applyIfTrusted json state call).stage = state.stage ∧
      (applyIfTrusted json state call).owed = state.owed ∧
      (applyIfTrusted json state call).attempts = state.attempts := by
  unfold applyIfTrusted
  split
  · split <;> exact ⟨rfl, rfl, rfl, rfl⟩
  · exact ⟨rfl, rfl, rfl, rfl⟩
  · exact ⟨rfl, rfl, rfl, rfl⟩
  · exact ⟨rfl, rfl, rfl, rfl⟩

theorem tickInv_step {earliestMs : ℤ} {start after : UnattendedState} {tail : List Attempt}
    {event : UnattendedEvent} (hvalid : config.validate promoter.policy = .ok ())
    (henabled : config.enabled = true) (hinv : TickInv config earliestMs start state tail)
    (hguard : undisturbedTick earliestMs state event)
    (hstep : (unattendedMachine sha256 json promoter config).step state event = some after) :
    ∃ tail, TickInv config earliestMs start after tail := by
  cases event with
  | operator headers id body moment =>
      cases hstep
      exact ⟨_, hinv.promote (actorFromHeaders_ne headers).1 state.applies⟩
  | name id label source metadata =>
      cases hstep
      exact ⟨tail, hinv.attempts, hinv.counts, hinv.outcome⟩
  | evidence store => exact hguard.elim
  | tick => exact hguard.elim
  | shutdown => exact hguard.elim
  | page reply nowMs =>
      rcases hguard with ⟨hearliest, page, rfl, hscan⟩
      simp only [unattendedMachine] at hstep
      split at hstep
      · rename_i promoted reply hlisting hreply
        cases hreply
        cases hstep
        have hcounts := hinv.counts
        have houtcome := hinv.outcome
        rw [hlisting] at hcounts houtcome
        have hwaiting := houtcome.resolve_left fun hidle ↦ by cases hidle.1
        refine ⟨tail, hinv.attempts, ⟨hcounts, hearliest⟩, .inr fun id record hwanted ↦ ?_⟩
        rcases hwaiting id record hwanted with hattended | ⟨hwaits, howed⟩
        · exact .inl hattended
        · refine .inr ⟨hwaits, ?_⟩
          by_cases hkey : id ∈ page.keys
          · exact .inl (List.mem_filterMap.mpr ⟨id, hkey, hwaits.1⟩)
          · refine .inr ⟨?_, howed, hkey⟩
            by_contra hlast
            exact hkey (hscan (by simpa using hlast) id howed hwaits.2)
      · rename_i promoted hlisting hreply
        cases hreply
      · cases hstep
  | next moment =>
      simp only [unattendedMachine] at hstep
      split at hstep
      · rename_i nowMs promoted last hworking
        cases hstep
        have hcounts := hinv.counts
        have houtcome := hinv.outcome
        rw [hworking] at hcounts houtcome
        rcases hcounts with ⟨rfl, hearliest⟩
        have hwaiting := houtcome.resolve_left fun hidle ↦ by cases hidle.1
        cases last with
        | true =>
            refine ⟨tail, hinv.attempts, trivial, .inr fun id record hwanted ↦ ?_⟩
            refine .inl ((hwaiting id record hwanted).resolve_right ?_)
            rintro ⟨-, hmem | ⟨hlast, -⟩⟩
            · cases hmem
            · cases hlast
        | false =>
            refine ⟨tail, hinv.attempts, rfl, .inr fun id record hwanted ↦ ?_⟩
            refine (hwaiting id record hwanted).imp_right fun hwaits ↦ ⟨hwaits.1, ?_⟩
            rcases hwaits.2 with hmem | ⟨-, howed⟩
            · cases hmem
            · exact howed
      · rename_i record records nowMs promoted last hworking
        cases hstep
        exact hinv.sweepRecord hvalid henabled hworking (hguard _ _ _ _ hworking)
      · cases hstep
  | apply call =>
      cases hstep
      rcases applyIfTrusted_same json state call with ⟨hevidence, hstage, howed, hattempts⟩
      refine ⟨tail, hattempts.trans hinv.attempts, ?_, ?_⟩
      · rw [hstage]
        exact hinv.counts
      · simp only [hstage, howed]
        refine hinv.outcome.imp_right fun houtcome id record hwanted ↦ ?_
        unfold Attended Waits
        rw [hevidence]
        exact houtcome id record hwanted
  | applyPromote position moment =>
      rcases Option.map_eq_some_iff.mp hstep with ⟨apply, -, rfl⟩
      exact ⟨_, hinv.promote (by decide) _⟩

end

theorem sweepConfig_valid : sweepConfig.validate promoterA.policy = .ok () := by
  decide +kernel

theorem undisturbedTick_next {state : UnattendedState} {records : List (CandidateRecord Profile)}
    {promoted : ℕ} {last : Bool} (hstage : state.stage = .working records 0 promoted last) :
    undisturbedTick 0 state (.next sweepMoment) := by
  intro _ _ _ _ hworking
  rw [hstage] at hworking
  cases hworking
  exact le_refl (0 : ℤ)

theorem undisturbedTick_page : undisturbedTick 0 sweepStart (.page (some sweepReply) 0) := by
  refine ⟨le_refl 0, sweepReply, rfl, ?_⟩
  intro _ id _ hlisted
  have hmem : id = promotedA ∨ id = billingA := by
    simpa [sweepStart, evidenceA, recordA, EvidenceStore.empty, or_comm] using hlisted
  simpa [sweepReply] using hmem

theorem wanted_orders : Wanted sweepConfig 0 sweepStart promotedA (recordA promotedA "orders") where
  found := getCandidate_evidenceA.1
  keyed := rfl
  listed := by simp [sweepStart, evidenceA, recordA]
  state := rfl
  source := by decide
  eligible := by decide +kernel

end Deblob.Cold
