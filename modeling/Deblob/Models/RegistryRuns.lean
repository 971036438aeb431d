import Deblob.Models.Registry

/-!
# Runs of the registry

Calls in any number interleave, and each may stop between two round trips. The registry is made for
one writer at a time: calls about the same version do not overlap, nor do a promotion and a rollback
or two of either. What holds then is an invariant of the store, the calls that have not come to an
end and the list of the values of the active pointer.
-/

namespace Deblob.Models

open Lib

variable {F Bundle : Type}

/-- The version a call is about. -/
def Operation.modelId : Operation F Bundle → Option String
  | .registerExists version | .registerWrite version => some version.modelId
  | .attachRead modelId _ _ => some modelId
  | .attachActive candidate _ _ | .attachActiveModel candidate _ _ _ => some candidate.modelId
  | .attachWrite decided _ => some decided.modelId
  | .promoteRead modelId _ _ => some modelId
  | .promoteActive candidate | .promoteActiveModel candidate _ => some candidate.modelId
  | .promoteWrite candidate _ => some candidate.modelId
  | .promotePointers modelId _ => some modelId
  | .rollbackActive | .rollbackPrior _ | .rollbackRead .. | .rollbackWrite .. => none
  | .rollbackRestored .. | .rollbackPointers .. => none
  | .audit => none

/-- Whether a call will move the pointers. -/
def Operation.moves : Operation F Bundle → Bool
  | .registerExists _ | .registerWrite _ => false
  | .attachRead .. | .attachActive .. | .attachActiveModel .. | .attachWrite .. => false
  | .promoteRead .. | .promoteActive _ | .promoteActiveModel .. => true
  | .promoteWrite .. | .promotePointers .. => true
  | .rollbackActive | .rollbackPrior _ | .rollbackRead .. | .rollbackWrite .. => true
  | .rollbackRestored .. | .rollbackPointers .. => true
  | .audit => false

/-- Whether a call has written something. -/
def Operation.wrote : Operation F Bundle → Bool
  | .promotePointers .. | .rollbackRestored .. | .rollbackPointers .. | .audit => true
  | .registerExists _ | .registerWrite _ => false
  | .attachRead .. | .attachActive .. | .attachActiveModel .. | .attachWrite .. => false
  | .promoteRead .. | .promoteActive _ | .promoteActiveModel .. | .promoteWrite .. => false
  | .rollbackActive | .rollbackPrior _ | .rollbackRead .. | .rollbackWrite .. => false

/-- The version a rollback takes back, between the write of its record and that of the pointers. -/
def Operation.takesBack : Operation F Bundle → Option String
  | .rollbackRestored activeId _ | .rollbackPointers activeId _ => some activeId
  | _ => none

/-- Two calls that one writer at a time never has in progress together are not compatible. -/
def Operation.Compatible (left right : Operation F Bundle) : Prop :=
  (left.modelId = none ∨ left.modelId ≠ right.modelId) ∧ (left.moves && right.moves) = false

instance (left right : Operation F Bundle) : Decidable (left.Compatible right) :=
  inferInstanceAs (Decidable (_ ∧ _))

/-- The store, the calls in progress, the calls that a store error stopped where they were, and the
values of the active pointer, the last one first. -/
structure RegistryState (F Bundle : Type) where
  store : RegistryStore F Bundle
  calls : List (Operation F Bundle)
  stopped : List (Operation F Bundle)
  trail : List String

/-- The calls that have begun and not come to an end. -/
def RegistryState.unfinished (state : RegistryState F Bundle) : List (Operation F Bundle) :=
  state.calls ++ state.stopped

inductive RegistryEvent (F Bundle : Type) where
  | start (request : Request F Bundle)
  | advance (position : ℕ) (nowMs : ℤ)
  | stop (position : ℕ)

/-- The value a round trip gives to the active pointer. -/
def Operation.named : Operation F Bundle → List String
  | .promotePointers modelId _ => [modelId]
  | .rollbackPointers _ priorId => [priorId]
  | _ => []

section

variable [Add F] [LT F] [DecidableLT F] (wilsonBound : WilsonBound F)

def registryMachine : Machine (RegistryState F Bundle) (RegistryEvent F Bundle) where
  init := ⟨⟨fun _ ↦ none, none, none⟩, [], [], []⟩
  step state
    | .start request => some { state with calls := request.operation :: state.calls }
    | .advance position nowMs => (state.calls[position]?).map fun operation ↦
      let (store, progress) := perform wilsonBound state.store nowMs operation
      ⟨store, replaceAt state.calls position progress.operation, state.stopped,
        operation.named ++ state.trail⟩
    | .stop position => (state.calls[position]?).map fun operation ↦
      { state with
        calls := state.calls.eraseIdx position
        stopped := operation :: state.stopped }

/-- The error a call returns at an event. -/
def returnedError (state : RegistryState F Bundle) : RegistryEvent F Bundle → Option RegistryError
  | .start _ => none
  | .advance position nowMs => (state.calls[position]?).bind fun operation ↦
    match (perform wilsonBound state.store nowMs operation).2 with
    | .failed error => some error
    | .next _ | .done => none
  | .stop _ => some .unavailable

end

/-- One writer at a time: a call starts beside calls that are compatible with it. -/
def oneWriter (state : RegistryState F Bundle) : RegistryEvent F Bundle → Prop
  | .start request => ∀ operation ∈ state.calls, request.operation.Compatible operation
  | .advance .. | .stop _ => True

instance (state : RegistryState F Bundle) (event : RegistryEvent F Bundle) :
    Decidable (oneWriter state event) :=
  match event with
  | .start request => inferInstanceAs (Decidable
      (∀ operation ∈ state.calls, request.operation.Compatible operation))
  | .advance .. | .stop _ => inferInstanceAs (Decidable True)

/-- What a call in progress has read still holds. -/
def CallInv (store : RegistryStore F Bundle) : Operation F Bundle → Prop
  | .registerExists _ => True
  | .registerWrite version => store.models version.modelId = none ∧ version.state = .candidate ∧
      version.evidence = none
  | .attachRead .. => True
  | .attachActive candidate _ _ | .attachActiveModel candidate _ _ _ =>
    store.models candidate.modelId = some candidate ∧ candidate.state = .candidate
  | .attachWrite decided _ => ∃ candidate, store.models decided.modelId = some candidate ∧
      candidate.state = .candidate ∧ decided.bundle = candidate.bundle ∧
      decided.evidence.isSome ∧ (decided.state = .shadowCandidate ∨ decided.state = .rejected)
  | .promoteRead .. => True
  | .promoteActive candidate => store.models candidate.modelId = some candidate ∧
      candidate.state = .shadowCandidate
  | .promoteActiveModel candidate activeId => store.models candidate.modelId = some candidate ∧
      candidate.state = .shadowCandidate ∧ store.active = some activeId
  | .promoteWrite candidate priorId =>
    store.models candidate.modelId = some { candidate with state := .shadowCandidate } ∧
      candidate.state = .active ∧ store.active = priorId
  | .promotePointers modelId priorId => store.active = priorId ∧ priorId ≠ some modelId ∧
      ∃ record, store.models modelId = some record ∧ record.state = .active
  | .rollbackActive => True
  | .rollbackPrior activeId => store.active = activeId
  | .rollbackRead activeId priorId => store.active = some activeId ∧ store.prior = some priorId
  | .rollbackWrite active priorId => store.active = some active.modelId ∧
      store.prior = some priorId ∧ active.state = .rolledBack ∧
      ∃ state, store.models active.modelId = some { active with state } ∧
        (state = .active ∨ state = .rolledBack)
  | .rollbackRestored activeId priorId | .rollbackPointers activeId priorId =>
    store.active = some activeId ∧ store.prior = some priorId ∧
      ∃ record, store.models activeId = some record ∧ record.state = .rolledBack
  | .audit => True

/-- The records, the pointers and the calls in progress fit together. -/
structure RegistryInv (state : RegistryState F Bundle) : Prop where
  keyed : ∀ modelId record, state.store.models modelId = some record → record.modelId = modelId
  evidence : ∀ modelId record, state.store.models modelId = some record →
    (record.state = .candidate ↔ record.evidence = none)
  active : state.store.active = state.trail.head?
  activeRecord : ∀ activeId, state.store.active = some activeId →
    ∃ record, state.store.models activeId = some record ∧
      (record.state = .active ∨ record.state = .rolledBack ∧
        ∃ operation ∈ state.unfinished, operation.takesBack = some activeId)
  prior : ∀ priorId, state.store.prior = some priorId → ∃ current rest,
    state.trail = current :: priorId :: rest ∧ current ≠ priorId ∧
      ∃ record, state.store.models priorId = some record ∧
        (record.state = .active ∨ record.state = .rolledBack ∧
          ∃ operation ∈ state.stopped, operation.takesBack = some priorId)
  named : ∀ modelId record, state.store.models modelId = some record → record.state = .active →
    modelId ∈ state.trail ∨ ∃ priorId, .promotePointers modelId priorId ∈ state.unfinished
  calls : ∀ operation ∈ state.calls, CallInv state.store operation
  compatible : state.calls.Pairwise Operation.Compatible

/-! ## Calls beside each other -/

/-- The version whose record a call relies on. -/
def Operation.holds : Operation F Bundle → Option String
  | .registerExists _ | .attachRead .. | .promoteRead .. => none
  | .registerWrite version => some version.modelId
  | .attachActive candidate _ _ | .attachActiveModel candidate _ _ _ => some candidate.modelId
  | .attachWrite decided _ => some decided.modelId
  | .promoteActive candidate | .promoteActiveModel candidate _ => some candidate.modelId
  | .promoteWrite candidate _ => some candidate.modelId
  | .promotePointers modelId _ => some modelId
  | .rollbackActive | .rollbackPrior _ | .rollbackRead .. | .audit => none
  | .rollbackWrite active _ => some active.modelId
  | .rollbackRestored activeId _ | .rollbackPointers activeId _ => some activeId

section

variable {store : RegistryStore F Bundle} {operation other : Operation F Bundle} {modelId : String}

theorem Operation.Compatible.symm (hcompatible : operation.Compatible other) :
    other.Compatible operation := by
  constructor
  · rcases hcompatible.1 with hnone | hne
    · by_cases hother : other.modelId = none
      · exact .inl hother
      · exact .inr fun heq ↦ hother (heq.trans hnone)
    · exact .inr hne.symm
  · rw [Bool.and_comm]
    exact hcompatible.2

/-- A call that does not move the pointers relies on the record of a bare candidate, or on none. -/
theorem CallInv.candidate (hcall : CallInv store operation) (hstays : operation.moves = false)
    (hholds : operation.holds = some modelId) : operation.modelId = some modelId ∧
      ∀ record, store.models modelId = some record → record.state = .candidate := by
  cases operation <;> simp only [Operation.holds, Option.some.injEq, reduceCtorEq] at hholds <;>
    simp only [Operation.moves, Bool.true_eq_false] at hstays
  case registerWrite version =>
    subst hholds
    refine ⟨rfl, fun record hrecord ↦ ?_⟩
    cases hcall.1.symm.trans hrecord
  case attachActive candidate evidence gate =>
    subst hholds
    refine ⟨rfl, fun record hrecord ↦ ?_⟩
    cases hcall.1.symm.trans hrecord
    exact hcall.2
  case attachActiveModel candidate evidence gate activeId =>
    subst hholds
    refine ⟨rfl, fun record hrecord ↦ ?_⟩
    cases hcall.1.symm.trans hrecord
    exact hcall.2
  case attachWrite decided against =>
    subst hholds
    rcases hcall with ⟨candidate, hcandidate, hstate, -⟩
    refine ⟨rfl, fun record hrecord ↦ ?_⟩
    cases hcandidate.symm.trans hrecord
    exact hstate

/-- A call that moves the pointers relies on its own version, or on the one that is active. -/
theorem CallInv.mover (hcall : CallInv store operation) (hmoves : operation.moves)
    (hholds : operation.holds = some modelId) : operation.modelId = some modelId ∨
      ∃ record, store.models modelId = some record ∧ record.state ≠ .candidate := by
  cases operation <;> simp only [Operation.holds, Option.some.injEq, reduceCtorEq] at hholds <;>
    simp only [Operation.moves, Bool.false_eq_true] at hmoves
  case promoteActive candidate =>
    exact .inl (congrArg some hholds)
  case promoteActiveModel candidate activeId =>
    exact .inl (congrArg some hholds)
  case promoteWrite candidate priorId =>
    exact .inl (congrArg some hholds)
  case promotePointers id priorId =>
    exact .inl (congrArg some hholds)
  case rollbackWrite active priorId =>
    subst hholds
    rcases hcall.2.2.2 with ⟨state, hrecord, hstate⟩
    exact .inr ⟨_, hrecord, by rcases hstate with rfl | rfl <;> nofun⟩
  case rollbackRestored activeId priorId =>
    subst hholds
    rcases hcall.2.2 with ⟨record, hrecord, hstate⟩
    exact .inr ⟨record, hrecord, by simp [hstate]⟩
  case rollbackPointers activeId priorId =>
    subst hholds
    rcases hcall.2.2 with ⟨record, hrecord, hstate⟩
    exact .inr ⟨record, hrecord, by simp [hstate]⟩

/-- Compatible calls rely on different records. -/
theorem CallInv.holds_ne (hcall : CallInv store operation) (hother : CallInv store other)
    (hcompatible : operation.Compatible other) (hholds : operation.holds = some modelId) :
    other.holds ≠ some modelId := by
  intro hsame
  have hids : ¬(operation.modelId = some modelId ∧ other.modelId = some modelId) := by
    rintro ⟨hleft, hright⟩
    rcases hcompatible.1 with hnone | hne
    · cases hnone.symm.trans hleft
    · exact hne (hleft.trans hright.symm)
  cases hmoves : operation.moves with
  | false =>
      rcases hcall.candidate hmoves hholds with ⟨hid, hcandidate⟩
      cases hothers : other.moves with
      | false => exact hids ⟨hid, (hother.candidate hothers hsame).1⟩
      | true =>
          rcases hother.mover hothers hsame with hotherId | ⟨record, hrecord, hstate⟩
          · exact hids ⟨hid, hotherId⟩
          · exact hstate (hcandidate record hrecord)
  | true =>
      cases hothers : other.moves with
      | true =>
          have hboth := hcompatible.2
          rw [hmoves, hothers] at hboth
          cases hboth
      | false =>
          rcases hother.candidate hothers hsame with ⟨hotherId, hcandidate⟩
          rcases hcall.mover hmoves hholds with hid | ⟨record, hrecord, hstate⟩
          · exact hids ⟨hid, hotherId⟩
          · exact hstate (hcandidate record hrecord)

/-- A record that a call does not rely on may change. -/
theorem CallInv.writeModel (hcall : CallInv store operation) {version : ModelVersion F Bundle}
    (hholds : operation.holds ≠ some version.modelId) :
    CallInv (store.writeModel version) operation := by
  have hmodels : ∀ id, operation.holds = some id →
      (store.writeModel version).models id = store.models id := by
    intro id hid
    refine Function.update_of_ne ?_ _ _
    rintro rfl
    exact hholds hid
  cases operation <;> simp only [CallInv] at hcall ⊢ <;>
    first
      | exact hcall
      | (rw [hmodels _ rfl]; exact hcall)

/-- The pointers may change beside a call that does not move them. -/
theorem CallInv.pointers (hcall : CallInv store operation) (hstays : operation.moves = false)
    (active prior : Option String) :
    CallInv { store with active := active, prior := prior } operation := by
  cases operation <;> first | exact hcall | cases hstays

end

end Deblob.Models
