import Deblob.Cold.Ingest
import Deblob.Lib.TransitionSystem
import Deblob.Monoid.Observed
import Mathlib.Algebra.BigOperators.Group.Finset.Basic

/-!
# What the cold lane conserves

One ingest after the other, with no store failure and no other writer. Every observation that is
not refused is counted in exactly one candidate, whose profile is the merge of the observations
routed to it. Aliases carry the source in their key and hot path candidate ids carry it in their
digest, so a candidate is only ever reached from one source.
-/

namespace Deblob.Cold

open Core Lib Fingerprint Redis
open Deblob.Monoid (Profile profileOf profileOf_concat profileOf_summarizes)

/-- The store, and the calls so far with their outcomes. -/
structure LaneState where
  store : ColdStore
  log : List (IngestCall × IngestOutcome)

/-- The next call, with the answer of the rate limiter. -/
structure LaneEvent where
  call : IngestCall
  granted : Bool

def laneMachine (sha256 : Bytes → Digest) : Machine LaneState LaneEvent where
  init := ⟨.empty, []⟩
  step state event :=
    let result := ingest sha256 state.store event.call event.granted none
    result.1.map fun outcome ↦ ⟨result.2, state.log ++ [(event.call, outcome)]⟩

/-- The candidate that an outcome reports. -/
def IngestOutcome.candidate : IngestOutcome → Option CandidateId
  | .ingested id _ => some id
  | .rateLimited => none

/-- The candidates of the ingested calls, one for each call. -/
def routedIds (log : List (IngestCall × IngestOutcome)) : List CandidateId :=
  log.filterMap fun entry ↦ entry.2.candidate

/-- The calls that were routed to a candidate. -/
def routedCalls (log : List (IngestCall × IngestOutcome)) (id : CandidateId) : List IngestCall :=
  (log.filter fun entry ↦ entry.2.candidate = some id).map Prod.fst

/-- The documents that were routed to a candidate. -/
def routedNodes (log : List (IngestCall × IngestOutcome)) (id : CandidateId) : List Node :=
  (routedCalls log id).map IngestCall.node

/-- How many calls were ingested. -/
def ingestedCount (log : List (IngestCall × IngestOutcome)) : ℕ :=
  log.countP fun entry ↦ entry.2.candidate.isSome

/-- What is hashed for a hot path candidate id. -/
def candidatePreimage (source : String) (digest : Digest) : Bytes :=
  utf8 source ++ [0] ++ digest.toList

/-- The hot path made the candidate ids from the source and the shape digest of each call, and
SHA-256 does not collide on what it hashed for them. -/
structure HotPathIds (sha256 : Bytes → Digest) (digestOf : IngestCall → Digest)
    (calls : List IngestCall) : Prop where
  minted : ∀ call ∈ calls,
    call.candId = .fromSourceAndDigest sha256 call.source (digestOf call)
  collisionFree : ∀ left ∈ calls, ∀ right ∈ calls,
    sha256 (candidatePreimage left.source (digestOf left)) =
        sha256 (candidatePreimage right.source (digestOf right)) →
      candidatePreimage left.source (digestOf left) =
        candidatePreimage right.source (digestOf right)

/-- The candidates hold what was routed to them. An alias stands under a key of a routed call, and
a candidate has the id of a call of the same source as each of its own. -/
structure LaneInv (sha256 : Bytes → Digest) (state : LaneState) : Prop where
  missing : ∀ id, routedCalls state.log id = [] → getCandidate state.store.evidence id = none
  held : ∀ id, routedCalls state.log id ≠ [] →
    ∃ record, getCandidate state.store.evidence id = some record ∧
      record.profile = profileOf (routedNodes state.log id) ∧
      record.sampleCount = (routedCalls state.log id).length
  aliases : ∀ key id, state.store.clusters key = some id →
    ∃ call ∈ routedCalls state.log id, key ∈ clusterKeys sha256 call.source call.node
  origin : ∀ id, ∀ call ∈ routedCalls state.log id,
    ∃ first ∈ state.log.map Prod.fst, first.candId = id ∧ first.source = call.source

/-! ## Sources in keys and ids -/

theorem length_hexChars (bytes : Bytes) : (hexChars bytes).length = 2 * bytes.length := by
  unfold hexChars
  rw [List.length_flatMap]
  simp [Nat.mul_comm]

/-- A cluster key tells its source: the fingerprint after it has a fixed length. -/
theorem source_of_scopedGenFp {left right : String} {first second : Digest}
    (heq : scopedGenFp left (hexLower first) = scopedGenFp right (hexLower second)) :
    left = right := by
  have hlist : (left ++ ":").toList ++ hexChars first.toList =
      (right ++ ":").toList ++ hexChars second.toList := by
    simpa [scopedGenFp, hexLower] using congrArg String.toList heq
  have hlength : (hexChars first.toList).length = (hexChars second.toList).length := by
    rw [length_hexChars, length_hexChars, Vector.length_toList, Vector.length_toList]
  rcases List.append_inj' hlist hlength with ⟨hsource, -⟩
  rw [String.toList_append, String.toList_append] at hsource
  exact String.toList_inj.mp (List.append_cancel_right hsource)

theorem source_of_clusterKeys {sha256 : Bytes → Digest} {key left right : String}
    {first second : Node} (hleft : key ∈ clusterKeys sha256 left first)
    (hright : key ∈ clusterKeys sha256 right second) : left = right := by
  rcases List.mem_map.mp hleft with ⟨fp, -, rfl⟩
  rcases List.mem_map.mp hright with ⟨other, -, heq⟩
  exact (source_of_scopedGenFp heq).symm

theorem source_of_candidatePreimage {left right : String} {first second : Digest}
    (heq : candidatePreimage left first = candidatePreimage right second) : left = right := by
  have hlength : first.toList.length = second.toList.length := by
    rw [Vector.length_toList, Vector.length_toList]
  rcases List.append_inj' heq hlength with ⟨hsource, -⟩
  exact utf8_injective (List.append_cancel_right hsource)

/-- Calls with one hot path id are of one source. -/
theorem HotPathIds.source_eq {sha256 : Bytes → Digest} {digestOf : IngestCall → Digest}
    {calls : List IngestCall} (hids : HotPathIds sha256 digestOf calls) {left right : IngestCall}
    (hleft : left ∈ calls) (hright : right ∈ calls) (heq : left.candId = right.candId) :
    left.source = right.source := by
  rw [hids.minted left hleft, hids.minted right hright] at heq
  have hhash := DigestId.fromDigest_injective heq
  exact source_of_candidatePreimage (hids.collisionFree left hleft right hright hhash)

/-! ## Logs -/

section Log

variable {log : List (IngestCall × IngestOutcome)} {call : IngestCall} {id other : CandidateId}
  {isNew : Bool}

theorem routedCalls_refused :
    routedCalls (log ++ [(call, .rateLimited)]) id = routedCalls log id := by
  simp [routedCalls, IngestOutcome.candidate]

theorem routedCalls_ingested : routedCalls (log ++ [(call, .ingested other isNew)]) id =
    routedCalls log id ++ if other = id then [call] else [] := by
  unfold routedCalls
  rw [List.filter_append, List.map_append, List.filter_singleton]
  by_cases heq : other = id
  · simp [IngestOutcome.candidate, heq]
  · simp [IngestOutcome.candidate, heq]

theorem length_routedCalls (log : List (IngestCall × IngestOutcome)) (id : CandidateId) :
    (routedCalls log id).length = (routedIds log).count id := by
  unfold routedCalls routedIds
  rw [List.length_map, ← List.countP_eq_length_filter, List.count_filterMap]
  apply List.countP_congr
  intro entry _
  simp

theorem length_routedIds (log : List (IngestCall × IngestOutcome)) :
    (routedIds log).length = ingestedCount log := by
  unfold routedIds ingestedCount
  rw [List.length_filterMap_eq_countP]

end Log

/-! ## Steps -/

section

variable {sha256 : Bytes → Digest} {state next : LaneState} {event : LaneEvent}

/-- A call is refused and writes nothing, or is routed to its target. -/
theorem laneStep_cases (hstep : (laneMachine sha256).step state event = some next) :
    (next.store = state.store ∧ next.log = state.log ++ [(event.call, .rateLimited)]) ∨
      ∃ isNew, next.log =
          state.log ++ [(event.call, .ingested (targetId sha256 state.store event.call) isNew)] ∧
        next.store.evidence =
          upsertCandidate state.store.evidence (ingestRecord sha256 state.store event.call) ∧
        ∀ key, next.store.clusters key =
          if key ∈ clusterKeys sha256 event.call.source event.call.node then
            some (targetId sha256 state.store event.call)
          else state.store.clusters key := by
  have hresult : (ingest sha256 state.store event.call event.granted none).1.map (fun outcome ↦
      (⟨(ingest sha256 state.store event.call event.granted none).2,
        state.log ++ [(event.call, outcome)]⟩ : LaneState)) = some next := hstep
  rcases Option.map_eq_some_iff.mp hresult with ⟨outcome, houtcome, rfl⟩
  cases outcome with
  | rateLimited => exact .inl ⟨ingest_rateLimited houtcome, rfl⟩
  | ingested id isNew =>
      right
      rcases ingest_ingested houtcome with ⟨rfl, hstore⟩
      refine ⟨isNew, rfl, evidence_ingested houtcome, fun key ↦ ?_⟩
      change (ingest sha256 state.store event.call event.granted none).2.clusters key = _
      rw [hstore, applyWrites_cons, clusters_laterWrites]
      rfl

theorem laneInv_init : LaneInv sha256 (laneMachine sha256).init where
  missing _ _ := rfl
  held _ hrouted := absurd rfl hrouted
  aliases _ _ halias := by cases halias
  origin _ _ hcall := by cases hcall

/-- The target of a call is its own id, or a candidate that was reached from the same source. -/
theorem LaneInv.origin_target (hinv : LaneInv sha256 state) (call : IngestCall) :
    ∃ first ∈ (state.log.map Prod.fst) ++ [call],
      first.candId = targetId sha256 state.store call ∧ first.source = call.source := by
  unfold targetId
  cases hclustered : clustered sha256 state.store call with
  | none => exact ⟨call, by simp, rfl, rfl⟩
  | some id =>
      rcases List.exists_of_findSome?_eq_some hclustered with ⟨key, hkey, halias⟩
      rcases hinv.aliases key id halias with ⟨routed, hrouted, hother⟩
      rcases hinv.origin id routed hrouted with ⟨first, hfirst, hid, hsource⟩
      refine ⟨first, List.mem_append_left _ hfirst, hid, ?_⟩
      rw [hsource]
      exact source_of_clusterKeys hother hkey

/-- What an ingest writes for its target is the merge of one more observation. -/
theorem LaneInv.ingestRecord (hinv : LaneInv sha256 state) (call : IngestCall) :
    (Cold.ingestRecord sha256 state.store call).profile =
        profileOf (routedNodes state.log (targetId sha256 state.store call) ++ [call.node]) ∧
      (Cold.ingestRecord sha256 state.store call).sampleCount =
        (routedCalls state.log (targetId sha256 state.store call)).length + 1 := by
  rw [profile_ingestRecord, sampleCount_ingestRecord, profileOf_concat, existingRecord]
  by_cases hempty : routedCalls state.log (targetId sha256 state.store call) = []
  · rw [hinv.missing _ hempty, routedNodes, hempty]
    simp
  · rcases hinv.held _ hempty with ⟨record, hrecord, hprofile, hcount⟩
    rw [hrecord, if_neg (by simpa [routedNodes] using hempty), ← hprofile, ← hcount]
    simp

theorem LaneInv.step (hinv : LaneInv sha256 state)
    (hstep : (laneMachine sha256).step state event = some next) : LaneInv sha256 next := by
  rcases laneStep_cases hstep with ⟨hstore, hlog⟩ | ⟨isNew, hlog, hevidence, hclusters⟩
  · have hcalls : ∀ id, routedCalls next.log id = routedCalls state.log id := fun id ↦ by
      rw [hlog, routedCalls_refused]
    constructor
    case missing =>
      intro id hempty
      rw [hcalls] at hempty
      rw [hstore]
      exact hinv.missing id hempty
    case held =>
      intro id hrouted
      rw [hcalls] at hrouted
      rw [hstore, routedNodes, hcalls]
      exact hinv.held id hrouted
    case aliases =>
      intro key id halias
      rw [hstore] at halias
      rw [hcalls]
      exact hinv.aliases key id halias
    case origin =>
      intro id call hcall
      rw [hcalls] at hcall
      rcases hinv.origin id call hcall with ⟨first, hfirst, horigin⟩
      rw [hlog, List.map_append]
      exact ⟨first, List.mem_append_left _ hfirst, horigin⟩
  · have hcalls : ∀ id, routedCalls next.log id = routedCalls state.log id ++
        if targetId sha256 state.store event.call = id then [event.call] else [] := fun id ↦ by
      rw [hlog, routedCalls_ingested]
    have hcandidate : ∀ id, getCandidate next.store.evidence id =
        if id = targetId sha256 state.store event.call then
          some (Cold.ingestRecord sha256 state.store event.call)
        else getCandidate state.store.evidence id := fun id ↦ by
      rw [hevidence, getCandidate_ingestRecord]
    constructor
    case missing =>
      intro id hempty
      rw [hcalls, List.append_eq_nil_iff] at hempty
      have hother : id ≠ targetId sha256 state.store event.call := by
        rintro rfl
        simp at hempty
      rw [hcandidate, if_neg hother]
      exact hinv.missing id hempty.1
    case held =>
      intro id hrouted
      rw [hcandidate, routedNodes, hcalls]
      by_cases hid : id = targetId sha256 state.store event.call
      · subst hid
        rcases hinv.ingestRecord event.call with ⟨hprofile, hcount⟩
        refine ⟨_, if_pos rfl, ?_, ?_⟩
        · rw [hprofile, if_pos rfl, List.map_append]
          rfl
        · rw [hcount, if_pos rfl, List.length_append, List.length_singleton]
      · rw [if_neg hid, if_neg (Ne.symm hid), List.append_nil]
        rw [hcalls, if_neg (Ne.symm hid), List.append_nil] at hrouted
        exact hinv.held id hrouted
    case aliases =>
      intro key id halias
      rw [hclusters] at halias
      rw [hcalls]
      split_ifs at halias with hkey
      · cases halias
        rw [if_pos rfl]
        exact ⟨event.call, by simp, hkey⟩
      · rcases hinv.aliases key id halias with ⟨call, hcall, hother⟩
        exact ⟨call, List.mem_append_left _ hcall, hother⟩
    case origin =>
      intro id call hcall
      rw [hcalls, List.mem_append] at hcall
      rw [hlog, List.map_append]
      rcases hcall with hold | hnew
      · rcases hinv.origin id call hold with ⟨first, hfirst, horigin⟩
        exact ⟨first, List.mem_append_left _ hfirst, horigin⟩
      · split_ifs at hnew with hid
        · rw [List.mem_singleton] at hnew
          subst hid hnew
          exact hinv.origin_target event.call
        · cases hnew

theorem laneInv_reachable (reached : (laneMachine sha256).Reachable Machine.always state) :
    LaneInv sha256 state :=
  reached.invariant laneInv_init fun _ _ _ hinv _ hstep ↦ hinv.step hstep

/-! ## Totals -/

theorem LaneInv.sampleCountOf_eq (hinv : LaneInv sha256 state) (id : CandidateId) :
    sampleCountOf state.store id = (routedIds state.log).count id := by
  rw [← length_routedCalls, sampleCountOf]
  by_cases hempty : routedCalls state.log id = []
  · rw [hinv.missing id hempty, hempty]
    rfl
  · rcases hinv.held id hempty with ⟨record, hrecord, -, hcount⟩
    rw [hrecord, ← hcount]
    rfl

theorem LaneInv.isSome_iff (hinv : LaneInv sha256 state) (id : CandidateId) :
    (getCandidate state.store.evidence id).isSome ↔ id ∈ (routedIds state.log).toFinset := by
  rw [List.mem_toFinset, ← List.count_pos_iff, ← length_routedCalls, List.length_pos_iff]
  by_cases hempty : routedCalls state.log id = []
  · simp [hinv.missing id hempty, hempty]
  · rcases hinv.held id hempty with ⟨record, hrecord, -⟩
    simp [hrecord, hempty]

/-- Every run of ingests conserves the observations, and keeps the sources apart. -/
theorem cold_lane_conserves (sha256 : Bytes → Digest) (state : LaneState)
    (reached : (laneMachine sha256).Reachable Machine.always state) :
    (∀ id record, getCandidate state.store.evidence id = some record →
      record.sampleCount = record.profile.count ∧
        record.profile = profileOf (routedNodes state.log id)) ∧
    (∀ id, (getCandidate state.store.evidence id).isSome ↔
      id ∈ (routedIds state.log).toFinset) ∧
    ∑ id ∈ (routedIds state.log).toFinset, sampleCountOf state.store id =
      ingestedCount state.log ∧
    ∀ digestOf, HotPathIds sha256 digestOf (state.log.map Prod.fst) →
      ∀ id, ∀ left ∈ routedCalls state.log id, ∀ right ∈ routedCalls state.log id,
        left.source = right.source := by
  have hinv := laneInv_reachable reached
  refine ⟨fun id record hrecord ↦ ?_, hinv.isSome_iff, ?_, ?_⟩
  · have hrouted : routedCalls state.log id ≠ [] := by
      intro hempty
      rw [hinv.missing id hempty] at hrecord
      cases hrecord
    rcases hinv.held id hrouted with ⟨held, hheld, hprofile, hcount⟩
    obtain rfl : held = record := Option.some.inj (hheld.symm.trans hrecord)
    rw [hcount, hprofile, (profileOf_summarizes _).1, routedNodes, List.length_map]
    exact ⟨rfl, rfl⟩
  · calc ∑ id ∈ (routedIds state.log).toFinset, sampleCountOf state.store id
        = ∑ id ∈ (routedIds state.log).toFinset, (routedIds state.log).count id :=
          Finset.sum_congr rfl fun id _ ↦ hinv.sampleCountOf_eq id
      _ = (routedIds state.log).length := List.sum_toFinset_count_eq_length _
      _ = ingestedCount state.log := length_routedIds state.log
  · intro digestOf hids id left hleft right hright
    rcases hinv.origin id left hleft with ⟨first, hfirst, hfirstId, hfirstSource⟩
    rcases hinv.origin id right hright with ⟨second, hsecond, hsecondId, hsecondSource⟩
    rw [← hfirstSource, ← hsecondSource]
    exact hids.source_eq hfirst hsecond (hfirstId.trans hsecondId.symm)

end

/-! ## Two documents in one source, one of them in another -/

/-- SHA-256 also on what is hashed for the candidate of `{"a":1}` in the source `billing`. -/
def laneSha256 (bytes : Bytes) : Digest :=
  if bytes = candidatePreimage "billing" (fingerprint ordersSha256 (shapeOf (numbers ["a"]))) then
    digestOfNat 0x2db1c7616a869a4794622cd8c1939b32301075024e9bd09cc13f585b3922e8b5
  else ordersSha256 bytes

def shapeDigest (call : IngestCall) : Digest := fingerprint laneSha256 (shapeOf call.node)

def laneCall (source : String) (keys : List String) (nowMs : ℤ) : IngestCall where
  candId := .fromSourceAndDigest laneSha256 source (fingerprint laneSha256 (shapeOf (numbers keys)))
  node := numbers keys
  source := source
  nowMs := nowMs

def laneCalls : List IngestCall :=
  [laneCall "orders" ["a"] 0, laneCall "orders" ["a", "b"] 1, laneCall "billing" ["a"] 2]

theorem hotPathIds_laneCalls : HotPathIds laneSha256 shapeDigest laneCalls where
  minted := by
    simp only [laneCalls, List.forall_mem_cons]
    exact ⟨rfl, rfl, rfl, fun _ hcall ↦ by cases hcall⟩
  collisionFree := by decide +kernel

/-- The two documents of `orders` share a candidate, which `billing` does not. -/
theorem cold_lane_conserves_laneCalls : ∃ state : LaneState,
    state.log.map Prod.fst = laneCalls ∧
      ∑ id ∈ (routedIds state.log).toFinset, sampleCountOf state.store id = 3 ∧
      ∀ id, ∀ left ∈ routedCalls state.log id, ∀ right ∈ routedCalls state.log id,
        left.source = right.source := by
  have hreplay : ((laneMachine laneSha256).replay Machine.always (laneMachine laneSha256).init
      (laneCalls.map fun call ↦ ⟨call, true⟩)).map (fun state ↦ state.log.map Prod.fst) =
        some laneCalls := rfl
  rcases Option.map_eq_some_iff.mp hreplay with ⟨state, hstate, hcalls⟩
  have hcount : ((laneMachine laneSha256).replay Machine.always (laneMachine laneSha256).init
      (laneCalls.map fun call ↦ ⟨call, true⟩)).map (fun state ↦ ingestedCount state.log) =
        some 3 := by
    decide +kernel
  rw [hstate, Option.map_some, Option.some.injEq] at hcount
  rcases cold_lane_conserves laneSha256 state (Machine.reachableFrom_replay _ hstate) with
    ⟨-, -, htotal, hsources⟩
  refine ⟨state, hcalls, htotal.trans hcount, hsources shapeDigest ?_⟩
  rw [hcalls]
  exact hotPathIds_laneCalls

end Deblob.Cold
