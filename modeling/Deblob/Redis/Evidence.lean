import Deblob.Core.Identity
import Deblob.Lib.KeyedSets

/-!
# Candidates and their per-state listings

A candidate is a hash whose `state` field is authoritative, and its id is kept in one set for each
state. `upsertCandidate` is one atomic pipeline. `set_state` is a script on the hash followed by a
separate pipeline on the sets, so the two are separate operations here.
-/

namespace Deblob.Redis

open Core Lib

inductive CandidateState where
  | provisional
  | staged
  | rejected
deriving DecidableEq, Repr

structure CandidateRecord (Profile : Type) where
  candidateId : CandidateId
  profile : Profile
  sampleCount : ℕ
  firstSeenMs : ℤ
  lastSeenMs : ℤ
  state : CandidateState
  source : Option String

/-- The hash of a candidate; its `state` field overrides the one inside the record. -/
structure CandidateHash (Profile : Type) where
  record : CandidateRecord Profile
  state : CandidateState

structure EvidenceStore (Profile : Type) where
  candidates : CandidateId → Option (CandidateHash Profile)
  listed : KeyedSets CandidateState CandidateId

variable {Profile : Type}

def EvidenceStore.empty : EvidenceStore Profile := ⟨fun _ ↦ none, fun _ ↦ ∅⟩

/-- The authoritative state of a candidate. -/
def stateOf (store : EvidenceStore Profile) (id : CandidateId) : Option CandidateState :=
  (store.candidates id).map CandidateHash.state

def getCandidate (store : EvidenceStore Profile) (id : CandidateId) :
    Option (CandidateRecord Profile) :=
  (store.candidates id).map fun hash ↦ { hash.record with state := hash.state }

/-- Write the whole hash, and list the candidate under the state it was written with. -/
def upsertCandidate (store : EvidenceStore Profile) (record : CandidateRecord Profile) :
    EvidenceStore Profile where
  candidates := Function.update store.candidates record.candidateId (some ⟨record, record.state⟩)
  listed := store.listed.sadd record.state record.candidateId

inductive SetStateError where
  | notFound
  | terminalState
deriving DecidableEq

/-- The script of `set_state`: a rejected candidate keeps its state. -/
def setStateScript (store : EvidenceStore Profile) (id : CandidateId) (target : CandidateState) :
    Except SetStateError (EvidenceStore Profile) :=
  match store.candidates id with
  | none => .error .notFound
  | some hash =>
    if hash.state = .rejected then .error .terminalState
    else .ok { store with
      candidates := Function.update store.candidates id (some { hash with state := target }) }

def allCandidateStates : List CandidateState := [.provisional, .staged, .rejected]

/-- The pipeline of `set_state`: list the candidate under the target and nowhere else. -/
def indexState (store : EvidenceStore Profile) (id : CandidateId) (target : CandidateState) :
    EvidenceStore Profile :=
  { store with
    listed := allCandidateStates.foldl (fun listed state ↦
      if state = target then listed.sadd state id else listed.srem state id) store.listed }

/-- The records one page of `list_candidates` returns; an expired member is skipped. -/
def listCandidates (store : EvidenceStore Profile) (page : List CandidateId) :
    List (CandidateRecord Profile) :=
  page.filterMap (getCandidate store)

variable {store : EvidenceStore Profile} {id other : CandidateId} {state target : CandidateState}

@[simp]
theorem stateOf_indexState : stateOf (indexState store id target) other = stateOf store other := rfl

@[simp]
theorem mem_indexState : other ∈ (indexState store id target).listed state ↔
    if other = id then state = target else other ∈ store.listed state := by
  cases state <;> cases target <;> by_cases hother : other = id <;>
    simp [indexState, allCandidateStates, hother]

theorem stateOf_upsertCandidate (record : CandidateRecord Profile) :
    stateOf (upsertCandidate store record) other =
      if other = record.candidateId then some record.state else stateOf store other := by
  by_cases hother : other = record.candidateId <;> simp [stateOf, upsertCandidate, hother]

theorem getCandidate_upsertCandidate (record : CandidateRecord Profile) :
    getCandidate (upsertCandidate store record) other =
      if other = record.candidateId then some record else getCandidate store other := by
  by_cases hother : other = record.candidateId <;> simp [getCandidate, upsertCandidate, hother]

@[simp]
theorem mem_upsertCandidate (record : CandidateRecord Profile) :
    other ∈ (upsertCandidate store record).listed state ↔
      (state = record.state ∧ other = record.candidateId) ∨ other ∈ store.listed state := by
  simp [upsertCandidate]

/-- A successful script changes the state of one candidate that was not rejected. -/
theorem setStateScript_ok {next : EvidenceStore Profile}
    (hok : setStateScript store id target = .ok next) :
    next.listed = store.listed ∧ (stateOf store id).isSome ∧ stateOf store id ≠ some .rejected ∧
      ∀ other, stateOf next other = if other = id then some target else stateOf store other := by
  unfold setStateScript at hok
  split at hok
  · cases hok
  · rename_i hash hhash
    split_ifs at hok with hrejected
    cases hok
    refine ⟨rfl, by simp [stateOf, hhash], by simp [stateOf, hhash, hrejected], fun other ↦ ?_⟩
    by_cases hother : other = id <;> simp [stateOf, hother]

end Deblob.Redis
