import Deblob.Slm.CacheKey
import Deblob.Slm.Contract

/-!
# The inference cache

A classification is answered from the cache, or by at most two HTTP calls. The second call repairs a
first one without a usable answer. When no answer is usable the decision falls back to an
abstention, and it is cached like any other. A cached decision was written by a call for the same
request, so it is a validated one unless the call that wrote it fell back.
-/

namespace Deblob.Slm

open Core Lib
open Retrieval (InferenceDecision InferenceError AbstainCause)

/-! ## HTTP calls -/

structure CallUsage where
  requestTokens : Option ℕ
  responseTokens : Option ℕ
deriving DecidableEq

inductive CallResult where
  | success (arguments : String) (usage : CallUsage)
  | malformed (usage : CallUsage)
  | transportError (message : String)
deriving DecidableEq

/-- What a call comes back with; the arguments are those of the first tool call of the first choice,
if the payload has them as a text. -/
inductive EndpointReply where
  | sendFailed (isTimeout : Bool) (error : String)
  | status (code : String)
  | unparseable
  | payload (arguments : Option String) (usage : CallUsage)
deriving DecidableEq

/-- `call_once`. -/
def EndpointReply.result : EndpointReply → CallResult
  | sendFailed isTimeout error =>
    .transportError (if isTimeout then "timeout" else "send failed: " ++ error)
  | status code => .transportError ("HTTP " ++ code)
  | unparseable => .malformed ⟨none, none⟩
  | payload (some arguments) usage => .success arguments usage
  | payload none usage => .malformed usage

/-- A classification with what it meets: the permit, the replies to its HTTP calls, the time it
takes and the entry that the cache would give up. -/
structure Call where
  model : String
  request : InferenceRequest HashedCandidate
  contractVersion_lt : request.contractVersion < 2 ^ 32
  permit : Except String Unit
  first : EndpointReply
  second : EndpointReply
  latencyMs : ℕ
  victim : ℕ

def Call.allowedIds (call : Call) : List SchemaId := call.request.retrieved.map (·.schemaId)

/-- The parts of a request that are answered. -/
def Call.SameRequest (call other : Call) : Prop :=
  call.model = other.model ∧ call.request.contractVersion = other.request.contractVersion ∧
    call.request.retrieved = other.request.retrieved ∧ call.request.prompt = other.request.prompt

instance (call other : Call) : Decidable (call.SameRequest other) :=
  inferInstanceAs (Decidable (_ ∧ _))

/-! ## The cache -/

abbrev DecisionCache := List (String × InferenceDecision)

def defaultCacheCapacity : ℕ := 1024

def DecisionCache.get (cache : DecisionCache) (key : String) : Option InferenceDecision :=
  cache.lookup key

/-- A full cache gives up some entry for a new key. -/
def DecisionCache.put (cache : DecisionCache) (victim : ℕ) (key : String)
    (decision : InferenceDecision) : DecisionCache :=
  let kept :=
    if defaultCacheCapacity ≤ cache.length ∧ cache.get key = none then
      cache.eraseIdx (victim % cache.length)
    else cache
  (key, decision) :: kept.filter (·.1 ≠ key)

/-! ## Classification -/

/-- The decision of the last attempt, and what went wrong for good. -/
structure Judged where
  decision : InferenceDecision
  usage : CallUsage
  parseError : Bool
  schemaValidationError : Bool
deriving DecidableEq

def fallbackDecision : InferenceDecision := .abstain .ambiguous

/-- The fallback with the flag of the error that was not recovered. -/
def markUnrecovered (usage : CallUsage) : ContractError → Judged
  | .idNotAllowed => ⟨fallbackDecision, usage, false, true⟩
  | .unknownField | .malformed _ => ⟨fallbackDecision, usage, true, false⟩

section

variable (fromStr : String → Except String InferenceDecision) (sha256 : Bytes → Digest)

/-- The repair attempt; the texts of two transport errors are joined. -/
def repair (allowedIds : List SchemaId) (transport : String → String) :
    CallResult → Except InferenceError Judged
  | .success arguments usage =>
    match validateDecision fromStr arguments allowedIds with
    | .ok decision => .ok ⟨decision, usage, false, false⟩
    | .error error => .ok (markUnrecovered usage error)
  | .malformed usage => .ok ⟨fallbackDecision, usage, true, false⟩
  | .transportError message => .error (.transport (transport message))

/-- The fate of a call and how often it was repaired. -/
def judge (allowedIds : List SchemaId) (first second : CallResult) :
    ℕ × Except InferenceError Judged :=
  match first with
  | .success arguments usage =>
    match validateDecision fromStr arguments allowedIds with
    | .ok decision => (0, .ok ⟨decision, usage, false, false⟩)
    | .error .idNotAllowed => (0, .ok ⟨fallbackDecision, usage, false, true⟩)
    | .error .unknownField | .error (.malformed _) => (1, repair fromStr allowedIds id second)
  | .malformed _ => (1, repair fromStr allowedIds id second)
  | .transportError message =>
    (1, repair fromStr allowedIds (fun retry ↦ "first: " ++ message ++ "; retry: " ++ retry) second)

def Call.judged (call : Call) : ℕ × Except InferenceError Judged :=
  judge fromStr call.allowedIds call.first.result call.second.result

def Call.key (call : Call) : String :=
  cacheKey sha256 call.model (.ofNat call.request.contractVersion) call.request.retrieved
    call.request.prompt

structure Classified where
  result : Except InferenceError InferenceOutcome
  httpCalls : ℕ
  cache : DecisionCache

def classify (cache : DecisionCache) (call : Call) : Classified :=
  match cache.get (call.key sha256) with
  | some cached =>
    ⟨.ok ⟨cached, ⟨none, none, none, none, 0, .ok, false, false, some call.model⟩⟩, 0, cache⟩
  | none =>
    match call.permit with
    | .error message => ⟨.error (.transport message), 0, cache⟩
    | .ok () =>
      match call.judged fromStr with
      | (repairCount, .error error) => ⟨.error error, 1 + repairCount, cache⟩
      | (repairCount, .ok judged) =>
        ⟨.ok ⟨judged.decision,
            ⟨judged.usage.requestTokens, judged.usage.responseTokens, some call.latencyMs,
              some call.latencyMs, repairCount, .ok, judged.parseError,
              judged.schemaValidationError, some call.model⟩⟩,
          1 + repairCount, cache.put call.victim (call.key sha256) judged.decision⟩

/-- The cache after a sequence of calls, of a new inferencer. -/
def cacheAfter (calls : List Call) : DecisionCache :=
  calls.foldl (fun cache call ↦ (classify fromStr sha256 cache call).cache) []

/-! ## What a call answers -/

/-- A decision that may be given for the allowed schemas. -/
def ValidFor (allowedIds : List SchemaId) (decision : InferenceDecision) : Prop :=
  ∀ schemaId relation, decision = .matchSchema schemaId relation → schemaId ∈ allowedIds

/-- The decision is what the reply says. -/
def Call.AnsweredBy (call : Call) (reply : EndpointReply) (decision : InferenceDecision) : Prop :=
  ∃ arguments usage, reply.result = .success arguments usage ∧
    validateDecision fromStr arguments call.allowedIds = .ok decision

/-- The replies to the HTTP calls that are made. -/
def Call.received (call : Call) : List EndpointReply :=
  call.first :: if (call.judged fromStr).1 = 0 then [] else [call.second]

/-- The decision is what a reply to the call says. -/
def Call.Answered (call : Call) (decision : InferenceDecision) : Prop :=
  ∃ reply ∈ call.received fromStr, call.AnsweredBy fromStr reply decision

/-- The repair attempt has a response without a usable answer. -/
def Call.repairFails (call : Call) : Bool :=
  match call.second.result with
  | .success arguments _ => !(validateDecision fromStr arguments call.allowedIds).isOk
  | .malformed _ => true
  | .transportError _ => false

/-- The responses force the fallback: the first one names a schema that is not allowed, or neither
has a usable answer. -/
def Call.fallsBack (call : Call) : Bool :=
  match call.first.result with
  | .success arguments _ =>
    match validateDecision fromStr arguments call.allowedIds with
    | .ok _ => false
    | .error .idNotAllowed => true
    | .error .unknownField | .error (.malformed _) => call.repairFails fromStr
  | .malformed _ => call.repairFails fromStr
  | .transportError _ => call.repairFails fromStr

theorem validFor_of_validateDecision {raw : String} {allowedIds : List SchemaId}
    {decision : InferenceDecision}
    (hvalid : validateDecision fromStr raw allowedIds = .ok decision) :
    ValidFor allowedIds decision := by
  unfold validateDecision at hvalid
  rintro schemaId relation rfl
  split at hvalid
  · cases hvalid
  · split_ifs at hvalid with hallowed
    cases hvalid
    exact hallowed
  · rename_i hother _
    cases hvalid
    exact absurd rfl (hother _ _)

theorem validFor_fallbackDecision (allowedIds : List SchemaId) :
    ValidFor allowedIds fallbackDecision := nofun

/-- A repair attempt answers with what its reply says, or falls back. -/
theorem repair_cases (call : Call) (transport : String → String) {judged : Judged}
    (hrepair : repair fromStr call.allowedIds transport call.second.result = .ok judged) :
    call.AnsweredBy fromStr call.second judged.decision ∨
      call.repairFails fromStr = true ∧ judged.decision = fallbackDecision := by
  unfold Call.repairFails
  cases hresult : call.second.result with
  | success arguments usage =>
      rw [hresult, repair] at hrepair
      cases hvalid : validateDecision fromStr arguments call.allowedIds with
      | ok decision =>
          rw [hvalid] at hrepair
          cases hrepair
          exact .inl ⟨arguments, usage, hresult, hvalid⟩
      | error error =>
          rw [hvalid] at hrepair
          cases hrepair
          exact .inr ⟨by simp [hvalid, Except.isOk, Except.toBool], by cases error <;> rfl⟩
  | malformed usage =>
      rw [hresult, repair] at hrepair
      cases hrepair
      exact .inr ⟨rfl, rfl⟩
  | transportError message =>
      rw [hresult, repair] at hrepair
      cases hrepair

/-- A call answers with what one of its replies says, or falls back. -/
theorem judged_cases (call : Call) {repairCount : ℕ} {judged : Judged}
    (hjudged : call.judged fromStr = (repairCount, .ok judged)) :
    call.Answered fromStr judged.decision ∨
      call.fallsBack fromStr = true ∧ judged.decision = fallbackDecision := by
  have hrepaired (transport : String → String)
      (hrepair : (1, repair fromStr call.allowedIds transport call.second.result) =
        (repairCount, .ok judged)) :
      call.Answered fromStr judged.decision ∨
        call.repairFails fromStr = true ∧ judged.decision = fallbackDecision := by
    rcases Prod.mk.inj hrepair with ⟨hcount, hrepair⟩
    refine (repair_cases fromStr call transport hrepair).imp_left fun hanswered ↦
      ⟨call.second, ?_, hanswered⟩
    rw [Call.received, hjudged, if_neg (by rw [← hcount]; exact one_ne_zero)]
    simp
  have hanswered (hfirst : call.AnsweredBy fromStr call.first judged.decision) :
      call.Answered fromStr judged.decision := ⟨call.first, List.mem_cons_self, hfirst⟩
  have hfate := hjudged
  unfold Call.judged judge at hfate
  unfold Call.fallsBack
  cases hresult : call.first.result with
  | success arguments usage =>
      rw [hresult] at hfate
      dsimp only at hfate
      cases hvalid : validateDecision fromStr arguments call.allowedIds with
      | ok decision =>
          rw [hvalid] at hfate
          cases hfate
          exact .inl (hanswered ⟨arguments, usage, hresult, hvalid⟩)
      | error error =>
          rw [hvalid] at hfate
          cases error with
          | idNotAllowed =>
              cases hfate
              exact .inr ⟨by simp [hvalid], rfl⟩
          | unknownField => simpa [hvalid] using hrepaired id hfate
          | malformed message => simpa [hvalid] using hrepaired id hfate
  | malformed usage =>
      rw [hresult] at hfate
      exact hrepaired id hfate
  | transportError message =>
      rw [hresult] at hfate
      exact hrepaired _ hfate

theorem judged_fst_le_one (call : Call) : (call.judged fromStr).1 ≤ 1 := by
  unfold Call.judged judge
  split
  · split <;> simp
  · exact le_rfl
  · exact le_rfl

/-! ## One call -/

/-- A call that is not answered from the cache caches its decision. -/
structure Writes (cache : DecisionCache) (call : Call) (decision : InferenceDecision) : Prop where
  missed : cache.get (call.key sha256) = none
  judged : ∃ repairCount judged, call.judged fromStr = (repairCount, .ok judged) ∧
    judged.decision = decision

theorem Writes.cases {cache : DecisionCache} {call : Call} {decision : InferenceDecision}
    (hwrites : Writes fromStr sha256 cache call decision) :
    call.Answered fromStr decision ∨
      call.fallsBack fromStr = true ∧ decision = fallbackDecision := by
  rcases hwrites.judged with ⟨repairCount, judged, hjudged, rfl⟩
  exact judged_cases fromStr call hjudged

theorem Writes.validFor {cache : DecisionCache} {call : Call} {decision : InferenceDecision}
    (hwrites : Writes fromStr sha256 cache call decision) :
    ValidFor call.allowedIds decision := by
  rcases hwrites.cases with ⟨reply, _, arguments, usage, _, hvalid⟩ | ⟨_, rfl⟩
  · exact validFor_of_validateDecision fromStr hvalid
  · exact validFor_fallbackDecision call.allowedIds

theorem mem_put {cache : DecisionCache} {victim : ℕ} {key : String}
    {decision : InferenceDecision} {entry : String × InferenceDecision}
    (hentry : entry ∈ cache.put victim key decision) :
    entry = (key, decision) ∨ entry ∈ cache := by
  rcases List.mem_cons.mp hentry with hnew | hold
  · exact .inl hnew
  · have hkept := (List.mem_filter.mp hold).1
    split_ifs at hkept
    · exact .inr (List.mem_of_mem_eraseIdx hkept)
    · exact .inr hkept

/-- The answer of a call is the cached decision, or the one that it writes. -/
theorem result_classify {cache : DecisionCache} {call : Call} {outcome : InferenceOutcome}
    (hresult : (classify fromStr sha256 cache call).result = .ok outcome) :
    cache.get (call.key sha256) = some outcome.decision ∨
      Writes fromStr sha256 cache call outcome.decision := by
  unfold classify at hresult
  split at hresult
  · rename_i cached hget
    cases hresult
    exact .inl hget
  · rename_i hget
    split at hresult
    · cases hresult
    · split at hresult
      · cases hresult
      · rename_i repairCount judged hjudged
        cases hresult
        exact .inr ⟨hget, repairCount, judged, hjudged, rfl⟩

theorem classify_of_get {cache : DecisionCache} {call : Call} {cached : InferenceDecision}
    (hget : cache.get (call.key sha256) = some cached) :
    classify fromStr sha256 cache call =
      ⟨.ok ⟨cached, ⟨none, none, none, none, 0, .ok, false, false, some call.model⟩⟩, 0,
        cache⟩ := by
  rw [classify, hget]

theorem httpCalls_classify (cache : DecisionCache) (call : Call) :
    (classify fromStr sha256 cache call).httpCalls ≤ 2 := by
  have hcount := judged_fst_le_one fromStr call
  unfold classify
  split
  · exact Nat.zero_le _
  · split
    · exact Nat.zero_le _
    · split
      · rename_i repairCount error hjudged
        rw [hjudged] at hcount
        exact Nat.add_le_add_left hcount 1
      · rename_i repairCount judged hjudged
        rw [hjudged] at hcount
        exact Nat.add_le_add_left hcount 1

/-- An entry was there before the call, or the call writes it. -/
theorem mem_cache_classify {cache : DecisionCache} {call : Call}
    {entry : String × InferenceDecision}
    (hentry : entry ∈ (classify fromStr sha256 cache call).cache) :
    entry ∈ cache ∨
      entry.1 = call.key sha256 ∧ Writes fromStr sha256 cache call entry.2 := by
  unfold classify at hentry
  split at hentry
  · exact .inl hentry
  · rename_i hget
    split at hentry
    · exact .inl hentry
    · split at hentry
      · exact .inl hentry
      · rename_i repairCount judged hjudged
        rcases mem_put hentry with rfl | hold
        · exact .inr ⟨rfl, hget, repairCount, judged, hjudged, rfl⟩
        · exact .inl hold

/-! ## Sequences of calls -/

/-- The call in a sequence that wrote an entry, which has been in the cache ever since. -/
structure WrittenBy (calls : List Call) (entry : String × InferenceDecision) (past : List Call)
    (writer : Call) (rest : List Call) : Prop where
  split : calls = past ++ writer :: rest
  key : entry.1 = writer.key sha256
  writes : Writes fromStr sha256 (cacheAfter fromStr sha256 past) writer entry.2
  stays : ∀ between, between <+: rest →
    entry ∈ cacheAfter fromStr sha256 (past ++ writer :: between)

theorem cacheAfter_concat (calls : List Call) (call : Call) :
    cacheAfter fromStr sha256 (calls ++ [call]) =
      (classify fromStr sha256 (cacheAfter fromStr sha256 calls) call).cache := by
  rw [cacheAfter, List.foldl_append, List.foldl_cons, List.foldl_nil, ← cacheAfter]

/-- Every cached decision was written by a call. -/
theorem exists_writtenBy {calls : List Call} {entry : String × InferenceDecision}
    (hentry : entry ∈ cacheAfter fromStr sha256 calls) :
    ∃ past writer rest, WrittenBy fromStr sha256 calls entry past writer rest := by
  induction calls using List.reverseRecOn with
  | nil => cases hentry
  | append_singleton calls call ih =>
      have hstep := hentry
      rw [cacheAfter_concat] at hstep
      rcases mem_cache_classify fromStr sha256 hstep with hold | ⟨hkey, hwrites⟩
      · rcases ih hold with ⟨past, writer, rest, hwritten⟩
        refine ⟨past, writer, rest ++ [call], ?_, hwritten.key, hwritten.writes, ?_⟩
        · rw [hwritten.split, List.append_assoc, List.cons_append]
        · intro between hbetween
          rcases List.prefix_concat_iff.mp hbetween with rfl | hprefix
          · rwa [hwritten.split, List.append_assoc, List.cons_append] at hentry
          · exact hwritten.stays between hprefix
      · refine ⟨calls, call, [], rfl, hkey, hwrites, fun between hbetween ↦ ?_⟩
        rwa [List.prefix_nil.mp hbetween]

/-! ## The cache is transparent -/

def Call.preimage (call : Call) : Bytes :=
  cachePreimage call.model (.ofNat call.request.contractVersion) call.request.retrieved
    call.request.prompt

/-- Names of models without NUL, families whose names are parsed, and no collision of digests. -/
structure WellFormed (calls : List Call) : Prop where
  noNul : ∀ call ∈ calls, '\x00' ∉ call.model.toList
  parsed : ∀ call ∈ calls, ∀ candidate ∈ call.request.retrieved, candidate.familyId.Parsed
  collisionFree : ∀ call ∈ calls, ∀ other ∈ calls,
    sha256 call.preimage = sha256 other.preimage → call.preimage = other.preimage

/-- The next call for a request that fell back does not find the decision any more. -/
def FallbacksEvicted (calls : List Call) : Prop :=
  ∀ past call between next after, calls = past ++ call :: (between ++ next :: after) →
    (cacheAfter fromStr sha256 past).get (call.key sha256) = none →
    call.fallsBack fromStr = true → call.SameRequest next →
    (∀ other ∈ between, ¬ call.SameRequest other) →
      (cacheAfter fromStr sha256 (past ++ call :: between)).get (next.key sha256) = none

variable {fromStr sha256} {calls : List Call}

/-- Calls share a key only for the same request. -/
theorem WellFormed.sameRequest (hwell : WellFormed sha256 calls) {call other : Call}
    (hcall : call ∈ calls) (hother : other ∈ calls) (hkey : call.key sha256 = other.key sha256) :
    call.SameRequest other := by
  have hpreimage := hwell.collisionFree call hcall other hother
    (cachePreimage_eq_of_cacheKey hkey)
  have hparts := cachePreimage_inj (hwell.noNul call hcall) (hwell.noNul other hother)
    (hwell.parsed call hcall) (hwell.parsed other hother) hpreimage
  refine ⟨hparts.1, ?_, hparts.2.2⟩
  have hversion := congrArg UInt32.toNat hparts.2.1
  rwa [UInt32.toNat_ofNat_of_lt' call.contractVersion_lt,
    UInt32.toNat_ofNat_of_lt' other.contractVersion_lt] at hversion

theorem Call.SameRequest.key_eq {call other : Call} (hsame : call.SameRequest other) :
    call.key sha256 = other.key sha256 := by
  unfold Call.key
  rw [hsame.1, hsame.2.1, hsame.2.2.1, hsame.2.2.2]

theorem mem_of_get {cache : DecisionCache} {key : String} {decision : InferenceDecision}
    (hget : cache.get key = some decision) : (key, decision) ∈ cache :=
  mem_of_getEntry hget

theorem get_ne_none_of_mem {cache : DecisionCache} {entry : String × InferenceDecision}
    (hentry : entry ∈ cache) : cache.get entry.1 ≠ none := fun hnone ↦
  absurd (List.lookup_eq_none_iff.mp hnone entry hentry) (by simp)

/-- What a call finds in the cache was written by an earlier call for the same request. -/
theorem WellFormed.writtenBy (hwell : WellFormed sha256 calls) {before after : List Call}
    {call : Call} (hcalls : calls = before ++ call :: after) {cached : InferenceDecision}
    (hget : (cacheAfter fromStr sha256 before).get (call.key sha256) = some cached) :
    ∃ past writer rest, writer.SameRequest call ∧
      WrittenBy fromStr sha256 before (call.key sha256, cached) past writer rest := by
  rcases exists_writtenBy fromStr sha256 (mem_of_get hget) with ⟨past, writer, rest, hwritten⟩
  refine ⟨past, writer, rest, ?_, hwritten⟩
  refine hwell.sameRequest ?_ (by simp [hcalls]) hwritten.key.symm
  rw [hcalls, hwritten.split]
  simp

/-- If the decisions of calls that fell back are not found, the writer of a found one did not fall
back. -/
theorem FallbacksEvicted.answered (hevicted : FallbacksEvicted fromStr sha256 calls)
    {before after : List Call} {call : Call} (hcalls : calls = before ++ call :: after)
    {cached : InferenceDecision} {past rest : List Call} {writer : Call}
    (hsame : writer.SameRequest call)
    (hwritten : WrittenBy fromStr sha256 before (call.key sha256, cached) past writer rest) :
    writer.Answered fromStr cached := by
  refine hwritten.writes.cases.resolve_right fun hfellBack ↦ ?_
  -- the first call after the writer that is for the same request
  have hfind : (rest ++ [call]).find? (fun other ↦ decide (writer.SameRequest other)) ≠ none := by
    rw [ne_eq, List.find?_eq_none]
    exact fun hnone ↦ hnone call (by simp) (decide_eq_true hsame)
  rcases Option.ne_none_iff_exists'.mp hfind with ⟨next, hnext⟩
  rcases List.find?_eq_some_iff_append.mp hnext with ⟨hsameNext, between, others, hsplit, hbetween⟩
  have hprefix : between <+: rest := by
    have hwhole : between <+: rest ++ [call] := by
      rw [hsplit]
      exact List.prefix_append _ _
    refine List.prefix_of_prefix_length_le hwhole (List.prefix_append rest [call]) ?_
    have hlength := congrArg List.length hsplit
    simp only [List.length_append, List.length_cons, List.length_nil] at hlength
    omega
  have hposition : calls = past ++ writer :: (between ++ next :: (others ++ after)) := by
    calc calls = past ++ writer :: (rest ++ [call] ++ after) := by
          rw [hcalls, hwritten.split]
          simp
      _ = past ++ writer :: (between ++ next :: (others ++ after)) := by
          rw [hsplit]
          simp
  have hsameNext : writer.SameRequest next := of_decide_eq_true hsameNext
  have hgone := hevicted past writer between next (others ++ after) hposition
    hwritten.writes.missed hfellBack.1 hsameNext fun other hother ↦ by
      simpa using hbetween other hother
  rw [← hsameNext.key_eq, ← hwritten.key] at hgone
  exact get_ne_none_of_mem (hwritten.stays between hprefix) hgone

/-- Every decision is valid for the schemas of its request, a call makes at most two HTTP calls, and
calls share an entry only for the same request. As long as no call finds the decision of one that
fell back, every cached decision is what a reply to an earlier call for the same request said. -/
theorem cache_transparent (hwell : WellFormed sha256 calls) :
    (∀ before call after, calls = before ++ call :: after →
      (∀ outcome,
        (classify fromStr sha256 (cacheAfter fromStr sha256 before) call).result = .ok outcome →
          ValidFor call.allowedIds outcome.decision) ∧
      (classify fromStr sha256 (cacheAfter fromStr sha256 before) call).httpCalls ≤ 2 ∧
      ∀ other ∈ calls, other.key sha256 = call.key sha256 → other.SameRequest call) ∧
    (FallbacksEvicted fromStr sha256 calls →
      ∀ before call after, calls = before ++ call :: after → ∀ cached,
        (cacheAfter fromStr sha256 before).get (call.key sha256) = some cached →
          (∃ outcome, (classify fromStr sha256 (cacheAfter fromStr sha256 before) call).result =
            .ok outcome ∧ outcome.decision = cached) ∧
          (classify fromStr sha256 (cacheAfter fromStr sha256 before) call).httpCalls = 0 ∧
          ∃ past earlier rest, before = past ++ earlier :: rest ∧ earlier.SameRequest call ∧
            earlier.Answered fromStr cached) := by
  constructor
  · intro before call after hcalls
    have hcall : call ∈ calls := by simp [hcalls]
    refine ⟨fun outcome hresult ↦ ?_, httpCalls_classify fromStr sha256 _ call,
      fun other hother hkey ↦ hwell.sameRequest hother hcall hkey⟩
    rcases result_classify fromStr sha256 hresult with hget | hwrites
    · rcases hwell.writtenBy hcalls hget with ⟨past, writer, rest, hsame, hwritten⟩
      have hvalid := hwritten.writes.validFor
      rwa [Call.allowedIds, hsame.2.2.1] at hvalid
    · exact hwrites.validFor
  · intro hevicted before call after hcalls cached hget
    rcases hwell.writtenBy hcalls hget with ⟨past, writer, rest, hsame, hwritten⟩
    rw [classify_of_get fromStr sha256 hget]
    exact ⟨⟨_, rfl, rfl⟩, rfl, past, writer, rest, hwritten.split, hsame,
      hevicted.answered hcalls hsame hwritten⟩

end

/-! ## A repeated request -/

def noveltyAnswer : String := "\x7b\"decision\":\"new_candidate\",\"novelty\":\"structural\"\x7d"

def noveltyReader (raw : String) : Except String InferenceDecision :=
  if raw = noveltyAnswer then .ok (.newCandidate .structural)
  else .error "expected value at line 1 column 1"

/-- A request with one retrieved family, and the replies it meets. -/
def ordersCall (first second : EndpointReply) : Call where
  model := "slm"
  request :=
    { candidate := ⟨12, [], false⟩
      retrieved := [⟨⟨"fam_01981f0e-5a7c-7d3b-9e42-6b1f0c2d3e4f"⟩,
        DigestId.fromDigest (Vector.replicate 32 1), 1, 0x3E800000, 1⟩]
      contractVersion := 1
      budget := ⟨4096, 2000⟩
      prompt := "field_count: 0" }
  contractVersion_lt := by decide
  permit := .ok ()
  first
  second
  latencyMs := 40
  victim := 0

def zeroDigest (_ : Bytes) : Digest := Vector.replicate 32 0

theorem wellFormed_ordersCall (first second : EndpointReply) :
    WellFormed zeroDigest [ordersCall first second, ordersCall first second] := by
  have hcalls : ∀ call ∈ [ordersCall first second, ordersCall first second],
      call = ordersCall first second := by simp
  constructor
  · intro call hcall
    rw [hcalls call hcall]
    change '\x00' ∉ "slm".toList
    decide
  · intro call hcall candidate hcandidate
    rw [hcalls call hcall] at hcandidate
    rw [List.mem_singleton.mp hcandidate]
    change FamilyId.Parsed ⟨"fam_01981f0e-5a7c-7d3b-9e42-6b1f0c2d3e4f"⟩
    decide +kernel
  · intro call hcall other hother _
    rw [hcalls call hcall, hcalls other hother]

/-- A request that was answered is answered again from the cache. -/
theorem cache_transparent_orders :
    ∃ past earlier rest,
      [ordersCall (.payload (some noveltyAnswer) ⟨none, none⟩) .unparseable] =
          past ++ earlier :: rest ∧
        earlier.SameRequest (ordersCall (.payload (some noveltyAnswer) ⟨none, none⟩) .unparseable) ∧
        earlier.Answered noveltyReader (.newCandidate .structural) := by
  have hfallsBack : (ordersCall (.payload (some noveltyAnswer) ⟨none, none⟩) .unparseable).fallsBack
      noveltyReader = false := by decide +kernel
  refine ((cache_transparent (wellFormed_ordersCall
    (.payload (some noveltyAnswer) ⟨none, none⟩) .unparseable)).2 ?_ [_] _ [] rfl
    (.newCandidate .structural) (by decide +kernel)).2.2
  intro past call between next after hcalls _ hfell
  have hcall : call ∈ [ordersCall (.payload (some noveltyAnswer) ⟨none, none⟩) .unparseable,
      ordersCall (.payload (some noveltyAnswer) ⟨none, none⟩) .unparseable] := by
    rw [hcalls]
    simp
  rw [show call = ordersCall _ _ by simpa using hcall, hfallsBack] at hfell
  cases hfell

/-- Two replies without a tool call: the decision falls back, and the next call is given it from the
cache with clean telemetry. -/
theorem fallback_replayed :
    WellFormed zeroDigest
      [ordersCall .unparseable .unparseable, ordersCall .unparseable .unparseable] ∧
    (∀ decision, ¬ (ordersCall .unparseable .unparseable).Answered noveltyReader decision) ∧
    (classify noveltyReader zeroDigest
        (cacheAfter noveltyReader zeroDigest [ordersCall .unparseable .unparseable])
        (ordersCall .unparseable .unparseable)).result =
      .ok ⟨.abstain .ambiguous, ⟨none, none, none, none, 0, .ok, false, false, some "slm"⟩⟩ ∧
    (classify noveltyReader zeroDigest
        (cacheAfter noveltyReader zeroDigest [ordersCall .unparseable .unparseable])
        (ordersCall .unparseable .unparseable)).httpCalls = 0 := by
  have hget : (cacheAfter noveltyReader zeroDigest [ordersCall .unparseable .unparseable]).get
      ((ordersCall .unparseable .unparseable).key zeroDigest) = some (.abstain .ambiguous) := by
    decide +kernel
  refine ⟨wellFormed_ordersCall _ _, ?_, ?_, ?_⟩
  · rintro decision ⟨reply, hreply, arguments, usage, hresult, _⟩
    have hreceived : (ordersCall .unparseable .unparseable).received noveltyReader =
        [.unparseable, .unparseable] := rfl
    rw [hreceived] at hreply
    rw [show reply = .unparseable by simpa using hreply] at hresult
    cases hresult
  · rw [classify_of_get _ _ hget]
    rfl
  · rw [classify_of_get _ _ hget]

end Deblob.Slm
