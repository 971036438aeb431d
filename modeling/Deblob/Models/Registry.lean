import Deblob.Lib.Pending
import Deblob.Lib.TransitionSystem
import Deblob.Models.Gate
import Mathlib.Logic.Function.Basic

/-!
# The registry of model versions

A call reads, decides and writes in separate round trips, and what it has read stays in its
continuation. A version record and the two pointers are written one after the other. Every call
ends with an entry in the audit stream. Calls interleave between their round trips, and any of them
may stop with a store error.
-/

namespace Deblob.Models

open Lib

inductive ModelState where
  | candidate
  | shadowCandidate
  | active
  | rejected
  | rolledBack
deriving DecidableEq

/-- A version; the bundle is what the registry only carries. -/
structure ModelVersion (F Bundle : Type) where
  modelId : String
  bundle : Bundle
  evidence : Option (GateEvidence F)
  shadowSince : Option ℤ
  state : ModelState

/-- The version records, the active pointer and the pointer to the model that was active before. -/
structure RegistryStore (F Bundle : Type) where
  models : String → Option (ModelVersion F Bundle)
  active : Option String
  prior : Option String

inductive RegistryError where
  | notFound
  | alreadyRegistered (modelId : String)
  | notCandidate (modelId : String) (found : ModelState)
  | notShadowCandidate (modelId : String) (found : ModelState)
  | noEvidence (modelId : String)
  | approvalRequired
  | holdNotElapsed (elapsed minimum : ℤ)
  | noActive
  | noPrior
  | unavailable
deriving DecidableEq

/-- The next round trip of a call, with what the call has read and decided so far. -/
inductive Operation (F Bundle : Type) where
  | registerExists (version : ModelVersion F Bundle)
  | registerWrite (version : ModelVersion F Bundle)
  | attachRead (modelId : String) (evidence : GateEvidence F) (gate : GateConfig F)
  | attachActive (candidate : ModelVersion F Bundle) (evidence : GateEvidence F)
      (gate : GateConfig F)
  | attachActiveModel (candidate : ModelVersion F Bundle) (evidence : GateEvidence F)
      (gate : GateConfig F) (activeId : String)
  | attachWrite (decided : ModelVersion F Bundle) (against : Option String)
  | promoteRead (modelId : String) (approved : Bool) (gate : GateConfig F)
  | promoteActive (candidate : ModelVersion F Bundle)
  | promoteActiveModel (candidate : ModelVersion F Bundle) (activeId : String)
  | promoteWrite (candidate : ModelVersion F Bundle) (priorId : Option String)
  | promotePointers (modelId : String) (priorId : Option String)
  | rollbackActive
  | rollbackPrior (activeId : Option String)
  | rollbackRead (activeId priorId : String)
  | rollbackWrite (active : ModelVersion F Bundle) (priorId : String)
  | rollbackRestored (activeId priorId : String)
  | rollbackPointers (activeId priorId : String)
  | audit

/-- The calls that arrive from outside. -/
inductive Request (F Bundle : Type) where
  | registerCandidate (version : ModelVersion F Bundle)
  | attachEvidence (modelId : String) (evidence : GateEvidence F) (gate : GateConfig F)
  | promote (modelId : String) (approved : Bool) (gate : GateConfig F)
  | rollback

variable {F Bundle : Type}

def Request.operation : Request F Bundle → Operation F Bundle
  | .registerCandidate version => .registerExists version
  | .attachEvidence modelId evidence gate => .attachRead modelId evidence gate
  | .promote modelId approved gate => .promoteRead modelId approved gate
  | .rollback => .rollbackActive

/-- What a round trip leaves of its call. -/
inductive Progress (F Bundle : Type) where
  | next (operation : Operation F Bundle)
  | done
  | failed (error : RegistryError)

def Progress.operation : Progress F Bundle → Option (Operation F Bundle)
  | .next operation => some operation
  | .done => none
  | .failed _ => none

def RegistryStore.writeModel (store : RegistryStore F Bundle) (version : ModelVersion F Bundle) :
    RegistryStore F Bundle :=
  { store with models := Function.update store.models version.modelId (some version) }

section

variable [Add F] [LT F] [DecidableLT F] (wilsonBound : WilsonBound F)

/-- The record that `attach_evidence` writes, given the version that is active. -/
def decideEvidence (candidate : ModelVersion F Bundle) (evidence : GateEvidence F)
    (gate : GateConfig F) (active : Option (ModelVersion F Bundle)) (nowMs : ℤ) :
    ModelVersion F Bundle :=
  let reasons := gateReasons wilsonBound evidence gate ++
    match active.bind ModelVersion.evidence with
    | some activeEvidence => regressionReasons evidence activeEvidence gate
    | none => []
  if reasons.isEmpty then
    { candidate with
      evidence := some evidence
      state := .shadowCandidate
      shadowSince := some nowMs }
  else { candidate with evidence := some evidence, state := .rejected }

/-- The checks of `promote` on the version it has read. -/
def promoteChecks (candidate : ModelVersion F Bundle) (approved : Bool) (gate : GateConfig F)
    (nowMs : ℤ) : Except RegistryError Unit := do
  if candidate.state ≠ .shadowCandidate then
    throw (.notShadowCandidate candidate.modelId candidate.state)
  if candidate.evidence.isNone then
    throw (.noEvidence candidate.modelId)
  if gate.requireExplicitApproval ∧ ¬approved then
    throw .approvalRequired
  match candidate.shadowSince with
  | some since =>
    if nowMs - since < gate.minShadowHoldMs then
      throw (.holdNotElapsed (nowMs - since) gate.minShadowHoldMs)
  | none => pure ()

/-- Perform one round trip. -/
def perform (store : RegistryStore F Bundle) (nowMs : ℤ) :
    Operation F Bundle → RegistryStore F Bundle × Progress F Bundle
  | .registerExists version =>
    if (store.models version.modelId).isSome then
      (store, .failed (.alreadyRegistered version.modelId))
    else
      (store, .next (.registerWrite
        { version with state := .candidate, evidence := none, shadowSince := none }))
  | .registerWrite version => (store.writeModel version, .next .audit)
  | .attachRead modelId evidence gate =>
    match store.models modelId with
    | none => (store, .failed .notFound)
    | some candidate =>
      if candidate.state ≠ .candidate then
        (store, .failed (.notCandidate modelId candidate.state))
      else (store, .next (.attachActive candidate evidence gate))
  | .attachActive candidate evidence gate =>
    match store.active with
    | none =>
      (store, .next (.attachWrite
        (decideEvidence wilsonBound candidate evidence gate none nowMs) none))
    | some activeId => (store, .next (.attachActiveModel candidate evidence gate activeId))
  | .attachActiveModel candidate evidence gate activeId =>
    (store, .next (.attachWrite
      (decideEvidence wilsonBound candidate evidence gate (store.models activeId) nowMs)
      (some activeId)))
  | .attachWrite decided _ => (store.writeModel decided, .next .audit)
  | .promoteRead modelId approved gate =>
    match store.models modelId with
    | none => (store, .failed .notFound)
    | some candidate =>
      match promoteChecks candidate approved gate nowMs with
      | .error error => (store, .failed error)
      | .ok () => (store, .next (.promoteActive candidate))
  | .promoteActive candidate =>
    match store.active with
    | none => (store, .next (.promoteWrite { candidate with state := .active } none))
    | some activeId => (store, .next (.promoteActiveModel candidate activeId))
  | .promoteActiveModel candidate activeId =>
    (store, .next (.promoteWrite { candidate with state := .active }
      ((store.models activeId).map ModelVersion.modelId)))
  | .promoteWrite candidate priorId =>
    (store.writeModel candidate, .next (.promotePointers candidate.modelId priorId))
  | .promotePointers modelId priorId =>
    ({ store with active := some modelId, prior := priorId }, .next .audit)
  | .rollbackActive => (store, .next (.rollbackPrior store.active))
  | .rollbackPrior activeId =>
    match activeId, store.prior with
    | none, _ => (store, .failed .noActive)
    | some _, none => (store, .failed .noPrior)
    | some activeId, some priorId => (store, .next (.rollbackRead activeId priorId))
  | .rollbackRead activeId priorId =>
    match store.models activeId with
    | none => (store, .failed .notFound)
    | some active => (store, .next (.rollbackWrite { active with state := .rolledBack } priorId))
  | .rollbackWrite active priorId =>
    (store.writeModel active, .next (.rollbackRestored active.modelId priorId))
  | .rollbackRestored activeId priorId =>
    match store.models priorId with
    | none => (store, .failed .notFound)
    | some _ => (store, .next (.rollbackPointers activeId priorId))
  | .rollbackPointers _ priorId =>
    ({ store with active := some priorId, prior := none }, .next .audit)
  | .audit => (store, .done)

end

end Deblob.Models
