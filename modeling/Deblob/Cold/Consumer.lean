import Deblob.Cold.Ingest
import Deblob.Lib.TransitionSystem
import Mathlib.Data.List.Nodup

/-!
# The discovery consumer

One run of the consumer takes messages of any partitions, hands them to the cold lane and commits
offsets in batches. A store failure is retried with the same message until it succeeds or the run is
shut down; the retry starts over with the reads. An observation is therefore counted once as long as
no store call fails after the candidate's record was written.
-/

namespace Deblob.Cold

open Core Lib Fingerprint Redis
open Deblob.Monoid (Profile)

/-- How many messages are processed between two commits. -/
def commitEvery : ℕ := 50

structure DiscoveryMsg where
  candId : String
  payload : Bytes
  source : String

/-- What a Kafka record holds: no body, one that is no envelope, or a message. -/
inductive Body where
  | empty
  | undecodable
  | discovery (msg : DiscoveryMsg)

structure ConsumerRecord where
  partition : ℕ
  offset : ℕ
  body : Body

inductive DiscoveryHandleError where
  | malformedPayload
  | invalidCandidateId
  | ingest

/-- What became of a record. -/
inductive Handled where
  | ingested (id : CandidateId) (observation : Profile)
  | rateLimited
  | skipped

structure ConsumerState where
  store : ColdStore
  /-- The next offset that the broker delivers, for each partition. -/
  position : ℕ → ℕ
  received : List ConsumerRecord
  /-- The record in the retry loop. -/
  current : Option ConsumerRecord
  handled : List (ConsumerRecord × Handled)
  pendingOffsets : List (ℕ × ℕ)
  sinceCommit : ℕ
  /-- Every offset that was committed so far. -/
  commits : List (ℕ × ℕ)
  running : Bool

inductive ConsumerEvent where
  | recv (record : ConsumerRecord)
  | attempt (nowMs : ℤ) (granted : Bool) (failure : Option ℕ)
  | shutdown
  | kafkaError

variable (sha256 : Bytes → Digest) (limits : Limits)

/-- The node and the candidate of a message that is well formed. -/
def parseMessage (msg : DiscoveryMsg) : Except DiscoveryHandleError (Node × CandidateId) :=
  match parseBounded msg.payload limits with
  | .error _ => .error .malformedPayload
  | .ok node =>
    match DigestId.parse msg.candId with
    | none => .error .invalidCandidateId
    | some candId => .ok (node, candId)

def handleDiscoveryMsg (store : ColdStore) (msg : DiscoveryMsg) (nowMs : ℤ) (granted : Bool)
    (failure : Option ℕ) : Except DiscoveryHandleError Handled × ColdStore :=
  match parseMessage limits msg with
  | .error err => (.error err, store)
  | .ok (node, candId) =>
    match ingest sha256 store ⟨candId, node, msg.source, nowMs⟩ granted failure with
    | (some (.ingested id _), next) => (.ok (.ingested id (.fromNode node)), next)
    | (some .rateLimited, next) => (.ok .rateLimited, next)
    | (none, next) => (.error .ingest, next)

/-- Commit the pending offsets. -/
def commitOffsets (state : ConsumerState) : ConsumerState :=
  { state with commits := state.commits ++ state.pendingOffsets }

/-- The end of the loop body: the record's offset becomes pending. -/
def advanceOffset (state : ConsumerState) (record : ConsumerRecord) (handled : Handled) :
    ConsumerState :=
  let state := { state with
    current := none
    handled := state.handled ++ [(record, handled)]
    pendingOffsets := state.pendingOffsets ++ [(record.partition, record.offset + 1)]
    sinceCommit := state.sinceCommit + 1 }
  if commitEvery ≤ state.sinceCommit then
    { commitOffsets state with pendingOffsets := [], sinceCommit := 0 }
  else state

def recvStep (state : ConsumerState) (record : ConsumerRecord) : Option ConsumerState :=
  if state.running && state.current.isNone && state.position record.partition ≤ record.offset then
    let state := { state with
      position := Function.update state.position record.partition (record.offset + 1)
      received := state.received ++ [record]
      current := some record }
    match record.body with
    | .discovery _ => some state
    | .empty | .undecodable => some (advanceOffset state record .skipped)
  else none

/-- One attempt of the retry loop; an error other than the store's is permanent. -/
def attemptStep (state : ConsumerState) (record : ConsumerRecord) (nowMs : ℤ) (granted : Bool)
    (failure : Option ℕ) : Option ConsumerState :=
  match record.body with
  | .discovery msg =>
    match handleDiscoveryMsg sha256 limits state.store msg nowMs granted failure with
    | (.ok handled, store) => some (advanceOffset { state with store } record handled)
    | (.error .ingest, store) => some { state with store }
    | (.error _, store) => some (advanceOffset { state with store } record .skipped)
  | .empty | .undecodable => none

def consumerStep (state : ConsumerState) : ConsumerEvent → Option ConsumerState
  | .recv record => recvStep state record
  | .attempt nowMs granted failure =>
    if state.running then
      state.current.bind fun record ↦ attemptStep sha256 limits state record nowMs granted failure
    else none
  | .shutdown => if state.running then some { commitOffsets state with running := false } else none
  | .kafkaError => if state.running then some { state with running := false } else none

def consumerMachine (start : ColdStore) (position : ℕ → ℕ) :
    Machine ConsumerState ConsumerEvent where
  init := ⟨start, position, [], none, [], [], 0, [], true⟩
  step := consumerStep sha256 limits

/-! ## What is counted -/

def profileOfCandidate (store : ColdStore) (id : CandidateId) : Option Profile :=
  (getCandidate store.evidence id).map CandidateRecord.profile

/-- The profile of a candidate after one more observation. -/
def mergeObservation (profile : Option Profile) (observation : Profile) : Option Profile :=
  some (profile.elim observation fun profile ↦ profile.merge observation)

/-- The observations that were ingested into a candidate, in order. -/
def observationsOf (id : CandidateId) (handled : List (ConsumerRecord × Handled)) :
    List Profile :=
  handled.filterMap fun entry ↦
    match entry.2 with
    | .ingested other observation => if other = id then some observation else none
    | .rateLimited | .skipped => none

/-- A record is accounted for by what its body allows: a well-formed message is ingested or rate
limited, everything else is skipped. -/
def AccountedFor (entry : ConsumerRecord × Handled) : Prop :=
  match entry.1.body with
  | .empty | .undecodable => entry.2 = .skipped
  | .discovery msg =>
    match parseMessage limits msg with
    | .error _ => entry.2 = .skipped
    | .ok (node, _) => entry.2 = .rateLimited ∨ ∃ id, entry.2 = .ingested id (.fromNode node)

/-- Every received record is handled once or is still being retried, the candidates hold exactly
the observations that were ingested, and no commit reaches a record that is being retried. -/
structure CountedOnce (start : ColdStore) (state : ConsumerState) : Prop where
  once : state.received = state.handled.map Prod.fst ++ state.current.toList
  distinct : state.received.Pairwise fun earlier later ↦
    earlier.partition = later.partition → earlier.offset < later.offset
  accounted : ∀ entry ∈ state.handled, AccountedFor limits entry
  counts : ∀ id, sampleCountOf state.store id =
    sampleCountOf start id + (observationsOf id state.handled).length
  profiles : ∀ id, profileOfCandidate state.store id =
    (observationsOf id state.handled).foldl mergeObservation (profileOfCandidate start id)
  uncommitted : ∀ record, state.current = some record → ∀ commit ∈ state.commits,
    commit.1 = record.partition → commit.2 ≤ record.offset

/-- A store call that fails does so before the record of the candidate is written. -/
def failsBeforeUpsert : ConsumerState → ConsumerEvent → Prop
  | _, .attempt _ _ failure => ∀ done, failure = some done → done = 0
  | _, _ => True

section

variable {sha256 limits} {store next : ColdStore} {call : IngestCall} {granted : Bool}

/-! ## What an attempt does to the records -/

theorem sampleCountOf_upsert (hnext : next.evidence =
    upsertCandidate store.evidence (ingestRecord sha256 store call)) (id : CandidateId) :
    sampleCountOf next id = sampleCountOf store id +
      if targetId sha256 store call = id then 1 else 0 := by
  rw [sampleCountOf, hnext, getCandidate_ingestRecord]
  by_cases hid : id = targetId sha256 store call
  · rw [if_pos hid, if_pos hid.symm, Option.map_some, sampleCount_ingestRecord, hid]
    rfl
  · rw [if_neg hid, if_neg (Ne.symm hid)]
    rfl

theorem profileOfCandidate_upsert (hnext : next.evidence =
    upsertCandidate store.evidence (ingestRecord sha256 store call)) (id : CandidateId) :
    profileOfCandidate next id = if targetId sha256 store call = id then
      mergeObservation (profileOfCandidate store id) (.fromNode call.node)
    else profileOfCandidate store id := by
  rw [profileOfCandidate, hnext, getCandidate_ingestRecord]
  by_cases hid : id = targetId sha256 store call
  · rw [if_pos hid, if_pos hid.symm, Option.map_some, profile_ingestRecord, hid]
    rfl
  · rw [if_neg hid, if_neg (Ne.symm hid)]
    rfl

/-- An attempt that fails leaves the records alone exactly if it failed before the upsert; an
attempt that the limiter refuses has nothing to write. -/
theorem failed_iff (hplan : (ingestPlan sha256 store call granted).1 ≠ .rateLimited) (done : ℕ) :
    (∀ id, getCandidate (ingest sha256 store call granted (some done)).2.evidence id =
      getCandidate store.evidence id) ↔ done = 0 := by
  rcases @ingestPlan_cases sha256 store call granted with hrefused | hwrites
  · rw [hrefused] at hplan
    exact absurd rfl hplan
  constructor
  · intro hsame
    cases done with
    | zero => rfl
    | succ done =>
        have hevidence : (ingest sha256 store call granted (some (done + 1))).2.evidence =
            upsertCandidate store.evidence (ingestRecord sha256 store call) := by
          rw [ingest, hwrites]
          exact evidence_of_subset (List.take_subset _ _)
        have hcount := sampleCountOf_upsert hevidence (targetId sha256 store call)
        rw [if_pos rfl, sampleCountOf, sampleCountOf, hsame] at hcount
        omega
  · rintro rfl id
    rfl

variable {msg : DiscoveryMsg} {record : ConsumerRecord} {nowMs : ℤ} {failure : Option ℕ}
  {handled : Handled}

/-- An attempt that succeeds accounts for its message and adds what it ingested. -/
theorem handle_ok (hbody : record.body = .discovery msg)
    (hok : handleDiscoveryMsg sha256 limits store msg nowMs granted failure = (.ok handled, next)) :
    AccountedFor limits (record, handled) ∧
      (∀ id, sampleCountOf next id =
        sampleCountOf store id + (observationsOf id [(record, handled)]).length) ∧
      ∀ id, profileOfCandidate next id =
        (observationsOf id [(record, handled)]).foldl mergeObservation
          (profileOfCandidate store id) := by
  unfold handleDiscoveryMsg at hok
  unfold AccountedFor
  rw [hbody]
  cases hparse : parseMessage limits msg with
  | error err =>
      rw [hparse] at hok
      cases hok
  | ok parsed =>
      rcases parsed with ⟨node, candId⟩
      rw [hparse] at hok
      dsimp only at hok ⊢
      rw [hparse]
      have hrefused := @ingest_rateLimited sha256 store ⟨candId, node, msg.source, nowMs⟩ granted
        failure
      have hwritten := @evidence_ingested sha256 store ⟨candId, node, msg.source, nowMs⟩ granted
        failure
      have htarget := @ingest_ingested sha256 store ⟨candId, node, msg.source, nowMs⟩ granted
        failure
      rcases hresult : ingest sha256 store ⟨candId, node, msg.source, nowMs⟩ granted failure
        with ⟨outcome, written⟩
      rw [hresult] at hok hrefused hwritten htarget
      cases outcome with
      | none => cases hok
      | some outcome =>
          cases outcome with
          | rateLimited =>
              cases hok
              have hsame : next = store := hrefused rfl
              rw [hsame]
              exact ⟨.inl rfl, fun _ ↦ rfl, fun _ ↦ rfl⟩
          | ingested id isNew =>
              cases hok
              have hevidence := hwritten rfl
              constructor
              · exact .inr ⟨id, rfl⟩
              · rw [(htarget rfl).1]
                constructor
                · intro other
                  rw [sampleCountOf_upsert hevidence]
                  by_cases hother : targetId sha256 store ⟨candId, node, msg.source, nowMs⟩ = other
                  · simp [observationsOf, hother]
                  · simp [observationsOf, hother]
                · intro other
                  rw [profileOfCandidate_upsert hevidence]
                  by_cases hother : targetId sha256 store ⟨candId, node, msg.source, nowMs⟩ = other
                  · simp [observationsOf, hother]
                  · simp [observationsOf, hother]

/-- An attempt that the store made fail before the upsert leaves the store as it was, and so does
one that fails for good, which is a message that is not well formed. -/
theorem handle_error (hbody : record.body = .discovery msg) {err : DiscoveryHandleError}
    (hfailure : ∀ done, failure = some done → done = 0)
    (herror : handleDiscoveryMsg sha256 limits store msg nowMs granted failure =
      (.error err, next)) :
    next = store ∧ (err = .ingest ∨ AccountedFor limits (record, .skipped)) := by
  unfold handleDiscoveryMsg at herror
  unfold AccountedFor
  rw [hbody]
  cases hparse : parseMessage limits msg with
  | error other =>
      rw [hparse] at herror
      cases herror
      dsimp only
      rw [hparse]
      exact ⟨rfl, .inr rfl⟩
  | ok parsed =>
      rcases parsed with ⟨node, candId⟩
      rw [hparse] at herror
      dsimp only at herror ⊢
      cases failure with
      | some done =>
          rw [hfailure done rfl] at herror
          cases herror
          exact ⟨rfl, .inl rfl⟩
      | none =>
          unfold ingest at herror
          dsimp only at herror
          split at herror
          · cases herror
          · cases herror
          · next hnone => cases hnone

end

/-! ## Runs of the consumer -/

section Advance

variable (state : ConsumerState) (record : ConsumerRecord) (handled : Handled)

@[simp]
theorem advanceOffset_store : (advanceOffset state record handled).store = state.store := by
  unfold advanceOffset
  dsimp only
  split <;> rfl

@[simp]
theorem advanceOffset_received :
    (advanceOffset state record handled).received = state.received := by
  unfold advanceOffset
  dsimp only
  split <;> rfl

@[simp]
theorem advanceOffset_position :
    (advanceOffset state record handled).position = state.position := by
  unfold advanceOffset
  dsimp only
  split <;> rfl

@[simp]
theorem advanceOffset_current : (advanceOffset state record handled).current = none := by
  unfold advanceOffset
  dsimp only
  split <;> rfl

@[simp]
theorem advanceOffset_handled :
    (advanceOffset state record handled).handled = state.handled ++ [(record, handled)] := by
  unfold advanceOffset
  dsimp only
  split <;> rfl

/-- The offset after the record joins the offsets that are committed or pending. -/
theorem advanceOffset_offsets {commit : ℕ × ℕ}
    (hcommit : commit ∈ (advanceOffset state record handled).commits ++
      (advanceOffset state record handled).pendingOffsets) :
    commit ∈ state.commits ++ state.pendingOffsets ∨
      commit = (record.partition, record.offset + 1) := by
  unfold advanceOffset at hcommit
  dsimp only at hcommit
  split at hcommit <;> simpa [commitOffsets, or_assoc] using hcommit

end Advance

theorem observationsOf_append (id : CandidateId) (left right : List (ConsumerRecord × Handled)) :
    observationsOf id (left ++ right) = observationsOf id left ++ observationsOf id right :=
  List.filterMap_append

/-- What holds between the records received, handled and committed and the candidates. -/
structure ConsumerInv (start : ColdStore) (state : ConsumerState) : Prop where
  once : state.received = state.handled.map Prod.fst ++ state.current.toList
  distinct : state.received.Pairwise fun earlier later ↦
    earlier.partition = later.partition → earlier.offset < later.offset
  positions : ∀ record ∈ state.received, record.offset < state.position record.partition
  accounted : ∀ entry ∈ state.handled, AccountedFor limits entry
  counts : ∀ id, sampleCountOf state.store id =
    sampleCountOf start id + (observationsOf id state.handled).length
  profiles : ∀ id, profileOfCandidate state.store id =
    (observationsOf id state.handled).foldl mergeObservation (profileOfCandidate start id)
  offsets : ∀ commit ∈ state.commits ++ state.pendingOffsets,
    ∃ entry ∈ state.handled, commit = (entry.1.partition, entry.1.offset + 1)

section

variable {sha256 limits} {start next : ColdStore} {state : ConsumerState} {record : ConsumerRecord}
  {handled : Handled}

/-- Only records that came before the one in the retry loop are committed. -/
theorem ConsumerInv.countedOnce (hinv : ConsumerInv limits start state) :
    CountedOnce limits start state := by
  constructor
  case once => exact hinv.once
  case distinct => exact hinv.distinct
  case accounted => exact hinv.accounted
  case counts => exact hinv.counts
  case profiles => exact hinv.profiles
  case uncommitted =>
    intro record hcurrent commit hcommit hpartition
    rcases hinv.offsets commit (List.mem_append_left _ hcommit) with ⟨entry, hentry, rfl⟩
    have hdistinct := hinv.distinct
    rw [hinv.once, hcurrent, List.pairwise_append] at hdistinct
    exact hdistinct.2.2 entry.1 (List.mem_map_of_mem hentry) record (by simp) hpartition

/-- Accounting for the record in the retry loop. -/
theorem ConsumerInv.advance (hinv : ConsumerInv limits start state)
    (hcurrent : state.current = some record) (haccounted : AccountedFor limits (record, handled))
    (hcounts : ∀ id, sampleCountOf next id =
      sampleCountOf state.store id + (observationsOf id [(record, handled)]).length)
    (hprofiles : ∀ id, profileOfCandidate next id =
      (observationsOf id [(record, handled)]).foldl mergeObservation
        (profileOfCandidate state.store id)) :
    ConsumerInv limits start (advanceOffset { state with store := next } record handled) := by
  constructor
  case once =>
    simp only [advanceOffset_received, advanceOffset_handled, advanceOffset_current]
    rw [hinv.once, hcurrent, List.map_append]
    simp
  case distinct => simpa using hinv.distinct
  case positions => simpa using hinv.positions
  case accounted =>
    intro entry hentry
    rw [advanceOffset_handled, List.mem_append, List.mem_singleton] at hentry
    rcases hentry with hentry | rfl
    · exact hinv.accounted entry hentry
    · exact haccounted
  case counts =>
    intro id
    rw [advanceOffset_store, advanceOffset_handled, observationsOf_append, List.length_append,
      hcounts id, hinv.counts id, add_assoc]
  case profiles =>
    intro id
    rw [advanceOffset_store, advanceOffset_handled, observationsOf_append, List.foldl_append,
      hprofiles id, hinv.profiles id]
  case offsets =>
    intro commit hcommit
    rw [advanceOffset_handled]
    rcases advanceOffset_offsets _ _ _ hcommit with hold | hnew
    · rcases hinv.offsets commit hold with ⟨entry, hentry, heq⟩
      exact ⟨entry, List.mem_append_left _ hentry, heq⟩
    · exact ⟨(record, handled), List.mem_append_right _ List.mem_cons_self, hnew⟩

/-- Taking a record that the broker delivers. -/
theorem ConsumerInv.receive (hinv : ConsumerInv limits start state)
    (hidle : state.current = none) (hposition : state.position record.partition ≤ record.offset) :
    ConsumerInv limits start { state with
      position := Function.update state.position record.partition (record.offset + 1)
      received := state.received ++ [record]
      current := some record } := by
  have hbelow : ∀ earlier ∈ state.received, earlier.partition = record.partition →
      earlier.offset < record.offset := by
    intro earlier hearlier hpartition
    have hearlierPosition := hinv.positions earlier hearlier
    rw [hpartition] at hearlierPosition
    exact hearlierPosition.trans_le hposition
  constructor
  case once =>
    change state.received ++ [record] = state.handled.map Prod.fst ++ [record]
    rw [hinv.once, hidle, Option.toList_none, List.append_nil]
  case distinct =>
    rw [List.pairwise_append]
    constructor
    · exact hinv.distinct
    · constructor
      · exact List.pairwise_singleton _ _
      · intro earlier hearlier later hlater hpartition
        rw [List.mem_singleton.mp hlater] at hpartition ⊢
        exact hbelow earlier hearlier hpartition
  case positions =>
    intro other hother
    rcases List.mem_append.mp hother with hother | hother
    · dsimp only
      by_cases hpartition : other.partition = record.partition
      · rw [hpartition, Function.update_self]
        exact (hbelow other hother hpartition).trans (Nat.lt_succ_self _)
      · rw [Function.update_of_ne hpartition]
        exact hinv.positions other hother
    · rw [List.mem_singleton.mp hother]
      dsimp only
      rw [Function.update_self]
      exact Nat.lt_succ_self _
  case accounted => exact hinv.accounted
  case counts => exact hinv.counts
  case profiles => exact hinv.profiles
  case offsets => exact hinv.offsets

theorem accountedFor_undiscovered (hbody : record.body = .empty ∨ record.body = .undecodable) :
    AccountedFor limits (record, .skipped) := by
  unfold AccountedFor
  rcases hbody with hbody | hbody <;> rw [hbody]

theorem consumerInv_recv (hinv : ConsumerInv limits start state) {after : ConsumerState}
    (hstep : recvStep state record = some after) : ConsumerInv limits start after := by
  unfold recvStep at hstep
  split_ifs at hstep with hready
  simp only [Bool.and_eq_true, Option.isNone_iff_eq_none, decide_eq_true_eq] at hready
  have hreceived := hinv.receive hready.1.2 hready.2
  cases hbody : record.body with
  | discovery msg =>
      rw [hbody] at hstep
      cases hstep
      exact hreceived
  | empty =>
      rw [hbody] at hstep
      cases hstep
      exact hreceived.advance rfl (accountedFor_undiscovered (.inl hbody)) (fun _ ↦ rfl)
        (fun _ ↦ rfl)
  | undecodable =>
      rw [hbody] at hstep
      cases hstep
      exact hreceived.advance rfl (accountedFor_undiscovered (.inr hbody)) (fun _ ↦ rfl)
        (fun _ ↦ rfl)

/-- An attempt that fails before the upsert accounts for its record or changes nothing. -/
theorem attemptStep_cases {nowMs : ℤ} {granted : Bool} {failure : Option ℕ}
    {after : ConsumerState} (hfailure : ∀ done, failure = some done → done = 0)
    (hstep : attemptStep sha256 limits state record nowMs granted failure = some after) :
    after = state ∨ ∃ handled store, after = advanceOffset { state with store } record handled ∧
      AccountedFor limits (record, handled) ∧
      (∀ id, sampleCountOf store id =
        sampleCountOf state.store id + (observationsOf id [(record, handled)]).length) ∧
      ∀ id, profileOfCandidate store id =
        (observationsOf id [(record, handled)]).foldl mergeObservation
          (profileOfCandidate state.store id) := by
  unfold attemptStep at hstep
  cases hbody : record.body with
  | empty | undecodable =>
      rw [hbody] at hstep
      cases hstep
  | discovery msg =>
      rw [hbody] at hstep
      dsimp only at hstep
      rcases hhandle : handleDiscoveryMsg sha256 limits state.store msg nowMs granted failure
        with ⟨result, store⟩
      rw [hhandle] at hstep
      cases result with
      | ok handled =>
          cases hstep
          exact .inr ⟨handled, store, rfl, handle_ok hbody hhandle⟩
      | error err =>
          rcases handle_error hbody hfailure hhandle with ⟨rfl, hskipped⟩
          cases err with
          | ingest =>
              cases hstep
              exact .inl rfl
          | malformedPayload | invalidCandidateId =>
              cases hstep
              rcases hskipped with hingest | hskipped
              · cases hingest
              · exact .inr ⟨.skipped, state.store, rfl, hskipped, fun _ ↦ rfl, fun _ ↦ rfl⟩

theorem consumerInv_step (hinv : ConsumerInv limits start state) {event : ConsumerEvent}
    (hallowed : failsBeforeUpsert state event) {after : ConsumerState}
    (hstep : consumerStep sha256 limits state event = some after) :
    ConsumerInv limits start after := by
  cases event with
  | recv record => exact consumerInv_recv hinv hstep
  | attempt nowMs granted failure =>
      unfold consumerStep at hstep
      dsimp only at hstep
      split_ifs at hstep
      rcases Option.bind_eq_some_iff.mp hstep with ⟨record, hcurrent, hattempt⟩
      rcases attemptStep_cases hallowed hattempt with rfl | ⟨handled, store, rfl, hrest⟩
      · exact hinv
      · exact hinv.advance hcurrent hrest.1 hrest.2.1 hrest.2.2
  | shutdown =>
      unfold consumerStep at hstep
      dsimp only at hstep
      split_ifs at hstep
      cases hstep
      constructor
      case once => exact hinv.once
      case distinct => exact hinv.distinct
      case positions => exact hinv.positions
      case accounted => exact hinv.accounted
      case counts => exact hinv.counts
      case profiles => exact hinv.profiles
      case offsets =>
        intro commit hcommit
        apply hinv.offsets commit
        simpa [commitOffsets, or_assoc] using hcommit
  | kafkaError =>
      unfold consumerStep at hstep
      dsimp only at hstep
      split_ifs at hstep
      cases hstep
      exact ⟨hinv.once, hinv.distinct, hinv.positions, hinv.accounted, hinv.counts,
        hinv.profiles, hinv.offsets⟩

/-- In every run whose store failures come before the upsert, each observation is counted once: the
received records are handled once, the candidates hold exactly the ingested observations, an attempt
that is retried left every record as it was, and no commit reaches the record being retried. Exactly
these failures leave the records as they were. -/
theorem evidence_counted_once (sha256 : Bytes → Digest) (limits : Limits) (start : ColdStore)
    (position : ℕ → ℕ) (state : ConsumerState)
    (reached : (consumerMachine sha256 limits start position).Reachable failsBeforeUpsert state) :
    CountedOnce limits start state ∧
      (∀ nowMs granted failure after,
        failsBeforeUpsert state (.attempt nowMs granted failure) →
        consumerStep sha256 limits state (.attempt nowMs granted failure) = some after →
        after.current.isSome → ∀ id,
          getCandidate after.store.evidence id = getCandidate state.store.evidence id) ∧
      ∀ call granted done, (ingestPlan sha256 state.store call granted).1 ≠ .rateLimited →
        ((∀ id, getCandidate (ingest sha256 state.store call granted (some done)).2.evidence id =
          getCandidate state.store.evidence id) ↔ done = 0) := by
  have hinv : ConsumerInv limits start state := by
    apply reached.invariant
    · constructor
      case once => rfl
      case distinct => exact List.Pairwise.nil
      case positions => exact fun record hrecord ↦ nomatch hrecord
      case accounted => exact fun entry hentry ↦ nomatch hentry
      case counts => exact fun id ↦ rfl
      case profiles => exact fun id ↦ rfl
      case offsets => exact fun commit hcommit ↦ nomatch hcommit
    · exact fun state event after hinv hallowed hstep ↦ consumerInv_step hinv hallowed hstep
  constructor
  · exact hinv.countedOnce
  constructor
  · intro nowMs granted failure after hallowed hstep hretried id
    unfold consumerStep at hstep
    dsimp only at hstep
    split_ifs at hstep
    rcases Option.bind_eq_some_iff.mp hstep with ⟨record, -, hattempt⟩
    rcases attemptStep_cases hallowed hattempt with rfl | ⟨handled, store, rfl, -⟩
    · rfl
    · rw [advanceOffset_current] at hretried
      cases hretried
  · intro call granted done hplan
    exact failed_iff hplan done

end

/-! ### A failure after the upsert -/

instance (state : ConsumerState) (event : ConsumerEvent) :
    Decidable (failsBeforeUpsert state event) :=
  match event with
  | .attempt _ _ none => .isTrue fun _ hdone ↦ nomatch hdone
  | .attempt _ _ (some done) => decidable_of_iff (done = 0)
    ⟨fun hzero _ hdone ↦ Option.some.inj hdone ▸ hzero, fun hall ↦ hall done rfl⟩
  | .recv _ | .shutdown | .kafkaError => .isTrue trivial

/-- The candidate of `{"a":1}` in the source `orders`. -/
def candidateA : CandidateId :=
  .fromSourceAndDigest ordersSha256 "orders" (fingerprint ordersSha256 (shapeOf (numbers ["a"])))

/-- The message is received, fails after `done` writes, and succeeds at the second attempt. -/
def retriedOnce (done : ℕ) : List ConsumerEvent :=
  [.recv ⟨0, 7, .discovery ⟨candidateA.asStr, ascii "\x7b\"a\":1\x7d", "orders"⟩⟩,
    .attempt 0 true (some done), .attempt 0 true none]

def ordersConsumer : Machine ConsumerState ConsumerEvent :=
  consumerMachine ordersSha256 default .empty fun _ ↦ 0

/-- The count of `{"a":1}` and the number of handled records. -/
def countView (state : ConsumerState) : ℕ × ℕ :=
  (sampleCountOf state.store candidateA, state.handled.length)

theorem evidence_counted_once_orders : ∃ state : ConsumerState,
    CountedOnce default .empty state ∧ countView state = (1, 1) := by
  have hreplay : (ordersConsumer.replay failsBeforeUpsert ordersConsumer.init
      (retriedOnce 0)).map countView = some (1, 1) := by
    decide +kernel
  rcases Option.map_eq_some_iff.mp hreplay with ⟨state, hstate, hview⟩
  have hreached := Machine.reachableFrom_replay _ hstate
  exact ⟨state,
    (evidence_counted_once ordersSha256 default .empty (fun _ ↦ 0) state hreached).1, hview⟩

/-- Failing after the upsert, the one message is counted twice. -/
theorem evidence_counted_twice : ∃ state : ConsumerState,
    ordersConsumer.Reachable Machine.always state ∧ countView state = (2, 1) ∧
      ¬ CountedOnce default .empty state := by
  have hreplay : (ordersConsumer.replay Machine.always ordersConsumer.init
      (retriedOnce 1)).map countView = some (2, 1) := by
    decide +kernel
  rcases Option.map_eq_some_iff.mp hreplay with ⟨state, hstate, hview⟩
  apply Exists.intro state
  constructor
  · exact Machine.reachableFrom_replay _ hstate
  constructor
  · exact hview
  · intro hcounted
    have hcounts := hcounted.counts candidateA
    have hlength : (observationsOf candidateA state.handled).length ≤ state.handled.length :=
      List.length_filterMap_le _ _
    have hview : sampleCountOf state.store candidateA = 2 ∧ state.handled.length = 1 :=
      Prod.mk.inj hview
    have hstart : sampleCountOf .empty candidateA = 0 := rfl
    omega

end Deblob.Cold
