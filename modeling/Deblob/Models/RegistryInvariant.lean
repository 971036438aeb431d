import Deblob.Models.RegistryRuns

/-!
# The invariant of the registry

A round trip reads, writes one record, or sets the pointers. For each of the three a lemma says what
has to be shown for the call that goes on, and the calls beside it rely on other records.
-/

namespace Deblob.Models

open Lib

variable {F Bundle : Type} {state : RegistryState F Bundle} {position : ℕ}
  {operation : Operation F Bundle}

/-- The call goes on with the same version, and moves the pointers only if it did. -/
def Operation.Continues (operation next : Operation F Bundle) : Prop :=
  (next.modelId = none ∨ next.modelId = operation.modelId) ∧ (next.moves → operation.moves)

theorem Operation.Continues.compatible {next other : Operation F Bundle}
    (hcontinues : operation.Continues next) (hcompatible : operation.Compatible other) :
    next.Compatible other := by
  constructor
  · rcases hcontinues.1 with hnone | heq
    · exact .inl hnone
    · rw [heq]
      exact hcompatible.1
  · rw [Bool.and_eq_false_iff]
    rcases Bool.and_eq_false_iff.mp hcompatible.2 with hstays | hother
    · refine .inl (Bool.eq_false_iff.mpr fun hmoves ↦ ?_)
      rw [hcontinues.2 hmoves] at hstays
      cases hstays
    · exact .inr hother

theorem moves_of_takesBack {activeId : String} (htakes : operation.takesBack = some activeId) :
    operation.moves := by
  cases operation <;> first | rfl | cases htakes

namespace RegistryInv

/-- The other calls, what they rely on, and that they are compatible with this one. -/
theorem others (hinv : RegistryInv state) (hposition : state.calls[position]? = some operation) :
    (∀ other ∈ state.calls.eraseIdx position, CallInv state.store other) ∧
      (∀ other ∈ state.calls.eraseIdx position, operation.Compatible other) ∧
        (state.calls.eraseIdx position).Pairwise Operation.Compatible := by
  have hpairwise := pairwise_pending (fun _ _ ↦ Operation.Compatible.symm) hposition
    hinv.compatible
  rcases List.pairwise_cons.mp hpairwise with ⟨hcompatible, hrest⟩
  exact ⟨fun other hother ↦ hinv.calls other (List.mem_of_mem_eraseIdx hother), hcompatible, hrest⟩

theorem call (hinv : RegistryInv state) (hposition : state.calls[position]? = some operation) :
    CallInv state.store operation :=
  hinv.calls operation (List.mem_of_getElem? hposition)

/-- The record that a pointer names is one that was promoted. -/
theorem pointed (hinv : RegistryInv state) {modelId : String}
    (hpointer : state.store.active = some modelId ∨ state.store.prior = some modelId) :
    ∃ record, state.store.models modelId = some record ∧
      (record.state = .active ∨ record.state = .rolledBack) := by
  rcases hpointer with hactive | hprior
  · rcases hinv.activeRecord modelId hactive with ⟨record, hrecord, hstate⟩
    exact ⟨record, hrecord, hstate.imp_right And.left⟩
  · rcases hinv.prior modelId hprior with ⟨_, _, -, -, record, hrecord, hstate⟩
    exact ⟨record, hrecord, hstate.imp_right And.left⟩

/-- A version that was promoted has evidence. -/
theorem evidence_of_promoted (hinv : RegistryInv state) {modelId : String}
    {record : ModelVersion F Bundle} (hrecord : state.store.models modelId = some record)
    (hstate : record.state = .active ∨ record.state = .rolledBack) : record.evidence.isSome := by
  refine Option.isSome_iff_ne_none.mpr fun hnone ↦ ?_
  have hcandidate := (hinv.evidence modelId record hrecord).mpr hnone
  rcases hstate with hstate | hstate <;> cases hcandidate.symm.trans hstate

/-- No pointer names a version that was not promoted. -/
theorem not_pointed (hinv : RegistryInv state) {modelId : String}
    (hrecord : ∀ record, state.store.models modelId = some record →
      record.state ≠ .active ∧ record.state ≠ .rolledBack) :
    state.store.active ≠ some modelId ∧ state.store.prior ≠ some modelId := by
  have hnone : ¬(state.store.active = some modelId ∨ state.store.prior = some modelId) := by
    intro hpointer
    rcases hinv.pointed hpointer with ⟨record, hmodel, hactive | hrolledBack⟩
    · exact (hrecord record hmodel).1 hactive
    · exact (hrecord record hmodel).2 hrolledBack
  exact not_or.mp hnone

/-- The calls after a round trip are compatible. -/
theorem compatible_replaceAt (hinv : RegistryInv state)
    (hposition : state.calls[position]? = some operation) {next : Option (Operation F Bundle)}
    (hnext : ∀ other ∈ next, operation.Continues other) :
    (replaceAt state.calls position next).Pairwise Operation.Compatible := by
  rcases hinv.others hposition with ⟨-, hcompatible, hrest⟩
  cases next with
  | none => exact hrest
  | some next =>
      refine List.pairwise_cons.mpr ⟨fun other hother ↦ ?_, hrest⟩
      exact (hnext next rfl).compatible (hcompatible other hother)

/-- A call that is not at `operation` is as it was after it. -/
theorem mem_unfinished_of_ne (hposition : state.calls[position]? = some operation)
    {other : Operation F Bundle} (hother : other ∈ state.unfinished) (hne : other ≠ operation)
    (next : Option (Operation F Bundle)) :
    other ∈ replaceAt state.calls position next ++ state.stopped := by
  rcases List.mem_append.mp hother with hcalls | hstopped
  · exact List.mem_append_left _
      (mem_replaceAt.mpr (.inr (((mem_pending hposition other).mp hcalls).resolve_left hne)))
  · exact List.mem_append_right _ hstopped

theorem mem_unfinished_next {next other : Operation F Bundle} (heq : next = other) :
    other ∈ replaceAt state.calls position (some next) ++ state.stopped :=
  List.mem_append_left _ (mem_replaceAt.mpr (.inl (congrArg some heq)))

/-- A round trip that only reads. -/
theorem read (hinv : RegistryInv state) (hposition : state.calls[position]? = some operation)
    {next : Option (Operation F Bundle)}
    (hnext : ∀ other ∈ next, operation.Continues other ∧ CallInv state.store other)
    (htakes : ∀ activeId, operation.takesBack = some activeId →
      ∃ other ∈ next, other.takesBack = some activeId)
    (hplain : ∀ modelId priorId, operation ≠ .promotePointers modelId priorId) :
    RegistryInv ⟨state.store, replaceAt state.calls position next, state.stopped, state.trail⟩ where
  keyed := hinv.keyed
  evidence := hinv.evidence
  active := hinv.active
  activeRecord activeId hactive := by
    rcases hinv.activeRecord activeId hactive with ⟨record, hrecord, hstate⟩
    refine ⟨record, hrecord, hstate.imp_right fun ⟨hrolledBack, other, hother, htake⟩ ↦ ?_⟩
    refine ⟨hrolledBack, ?_⟩
    by_cases hsame : other = operation
    · subst hsame
      rcases htakes activeId htake with ⟨following, hfollowing, htake⟩
      exact ⟨following, List.mem_append_left _ (mem_replaceAt.mpr (.inl hfollowing)), htake⟩
    · exact ⟨other, mem_unfinished_of_ne hposition hother hsame next, htake⟩
  prior := hinv.prior
  named modelId record hrecord hstate := by
    refine (hinv.named modelId record hrecord hstate).imp_right fun ⟨priorId, hpending⟩ ↦ ?_
    exact ⟨priorId, mem_unfinished_of_ne hposition hpending (hplain modelId priorId).symm next⟩
  calls other hother := by
    rcases of_mem_replaceAt hother with hnew | hold
    · exact (hnext other hnew).2
    · exact hinv.calls other hold
  compatible := hinv.compatible_replaceAt hposition fun other hother ↦ (hnext other hother).1

/-- A call that returns. -/
theorem returns (hinv : RegistryInv state) (hposition : state.calls[position]? = some operation)
    (htakes : operation.takesBack = none)
    (hplain : ∀ modelId priorId, operation ≠ .promotePointers modelId priorId) :
    RegistryInv ⟨state.store, replaceAt state.calls position none, state.stopped, state.trail⟩ := by
  refine hinv.read hposition (fun _ hother ↦ nomatch hother) (fun activeId htake ↦ ?_) hplain
  cases htakes.symm.trans htake

/-- A call that goes on and takes no version back. -/
theorem goesOn (hinv : RegistryInv state) (hposition : state.calls[position]? = some operation)
    {next : Operation F Bundle} (hcontinues : operation.Continues next)
    (hcall : CallInv state.store next) (htakes : operation.takesBack = none)
    (hplain : ∀ modelId priorId, operation ≠ .promotePointers modelId priorId) :
    RegistryInv ⟨state.store, replaceAt state.calls position (some next), state.stopped,
      state.trail⟩ := by
  refine hinv.read hposition ?_ (fun activeId htake ↦ ?_) hplain
  · rintro _ ⟨⟩
    exact ⟨hcontinues, hcall⟩
  · cases htakes.symm.trans htake

/-- A round trip that writes the record its call relies on. -/
theorem write (hinv : RegistryInv state) (hposition : state.calls[position]? = some operation)
    {version : ModelVersion F Bundle} {next : Operation F Bundle}
    (hholds : operation.holds = some version.modelId) (hcontinues : operation.Continues next)
    (hcall : CallInv (state.store.writeModel version) next)
    (hevidence : version.state = .candidate ↔ version.evidence = none)
    (hactive : state.store.active = some version.modelId →
      version.state = .rolledBack ∧ next.takesBack = some version.modelId)
    (hprior : state.store.prior ≠ some version.modelId)
    (hnamed : version.state = .active → ∃ priorId,
      next = .promotePointers version.modelId priorId)
    (htakes : operation.takesBack = none)
    (hplain : ∀ modelId priorId, operation ≠ .promotePointers modelId priorId) :
    RegistryInv ⟨state.store.writeModel version, replaceAt state.calls position (some next),
      state.stopped, state.trail⟩ := by
  have hsame : ∀ modelId, modelId ≠ version.modelId →
      (state.store.writeModel version).models modelId = state.store.models modelId :=
    fun modelId hne ↦ Function.update_of_ne hne _ _
  have hself : (state.store.writeModel version).models version.modelId = some version :=
    Function.update_self _ _ _
  rcases hinv.others hposition with ⟨hothers, hcompatible, -⟩
  constructor
  · intro modelId record hrecord
    by_cases hid : modelId = version.modelId
    · subst hid
      cases hself.symm.trans hrecord
      rfl
    · rw [hsame modelId hid] at hrecord
      exact hinv.keyed modelId record hrecord
  · intro modelId record hrecord
    by_cases hid : modelId = version.modelId
    · subst hid
      cases hself.symm.trans hrecord
      exact hevidence
    · rw [hsame modelId hid] at hrecord
      exact hinv.evidence modelId record hrecord
  · exact hinv.active
  · intro activeId hactiveId
    by_cases hid : activeId = version.modelId
    · subst hid
      rcases hactive hactiveId with ⟨hrolledBack, htake⟩
      exact ⟨version, hself, .inr ⟨hrolledBack, next, mem_unfinished_next rfl, htake⟩⟩
    · rcases hinv.activeRecord activeId hactiveId with ⟨record, hrecord, hstate⟩
      refine ⟨record, (hsame activeId hid).trans hrecord, hstate.imp_right ?_⟩
      rintro ⟨hrolledBack, other, hother, htake⟩
      refine ⟨hrolledBack, other, mem_unfinished_of_ne hposition hother ?_ _, htake⟩
      rintro rfl
      cases htakes.symm.trans htake
  · intro priorId hpriorId
    rcases hinv.prior priorId hpriorId with ⟨current, rest, htrail, hne, record, hrecord, hstate⟩
    refine ⟨current, rest, htrail, hne, record, (hsame priorId ?_).trans hrecord, hstate⟩
    rintro rfl
    exact hprior hpriorId
  · intro modelId record hrecord hstate
    by_cases hid : modelId = version.modelId
    · subst hid
      cases hself.symm.trans hrecord
      rcases hnamed hstate with ⟨priorId, hnext⟩
      exact .inr ⟨priorId, mem_unfinished_next hnext⟩
    · rw [hsame modelId hid] at hrecord
      refine (hinv.named modelId record hrecord hstate).imp_right fun ⟨priorId, hpending⟩ ↦ ?_
      exact ⟨priorId, mem_unfinished_of_ne hposition hpending (hplain modelId priorId).symm _⟩
  · intro other hother
    rcases mem_replaceAt.mp hother with hnew | hold
    · cases hnew
      exact hcall
    · refine (hothers other hold).writeModel ?_
      exact (hinv.call hposition).holds_ne (hothers other hold) (hcompatible other hold) hholds
  · refine hinv.compatible_replaceAt hposition fun other hother ↦ ?_
    cases hother
    exact hcontinues

/-- The calls beside one that moves the pointers do not. -/
theorem stays_of_moves (hinv : RegistryInv state)
    (hposition : state.calls[position]? = some operation) (hmoves : operation.moves)
    {other : Operation F Bundle} (hother : other ∈ state.calls.eraseIdx position) :
    other.moves = false := by
  have hcompatible := ((hinv.others hposition).2.1 other hother).2
  rw [hmoves, Bool.true_and] at hcompatible
  exact hcompatible

/-- Only a rollback that was stopped took back a version beside a call that moves the pointers. -/
theorem active_of_moves (hinv : RegistryInv state)
    (hposition : state.calls[position]? = some operation) (hmoves : operation.moves)
    (htakes : operation.takesBack = none) {activeId : String}
    (hactive : state.store.active = some activeId) :
    ∃ record, state.store.models activeId = some record ∧
      (record.state = .active ∨ record.state = .rolledBack ∧
        ∃ other ∈ state.stopped, other.takesBack = some activeId) := by
  rcases hinv.activeRecord activeId hactive with ⟨record, hrecord, hstate⟩
  refine ⟨record, hrecord, hstate.imp_right fun ⟨hrolledBack, other, hother, htake⟩ ↦ ?_⟩
  refine ⟨hrolledBack, other, ?_, htake⟩
  rcases List.mem_append.mp hother with hcalls | hstopped
  · rcases (mem_pending hposition other).mp hcalls with rfl | hrest
    · cases htakes.symm.trans htake
    · have hstays := hinv.stays_of_moves hposition hmoves hrest
      rw [moves_of_takesBack htake] at hstays
      cases hstays
  · exact hstopped

/-- A promotion beside a call that moves the pointers is that call, or was stopped. -/
theorem promotion_of_moves (hinv : RegistryInv state)
    (hposition : state.calls[position]? = some operation) (hmoves : operation.moves)
    {modelId : String} {priorId : Option String}
    (hpending : .promotePointers modelId priorId ∈ state.unfinished) :
    operation = .promotePointers modelId priorId ∨
      .promotePointers modelId priorId ∈ state.stopped := by
  rcases List.mem_append.mp hpending with hcalls | hstopped
  · rcases (mem_pending hposition _).mp hcalls with heq | hrest
    · exact .inl heq.symm
    · cases hinv.stays_of_moves hposition hmoves hrest
  · exact .inr hstopped

/-- The pointers move to the version that was promoted. -/
theorem promotePointers (hinv : RegistryInv state) {modelId : String} {priorId : Option String}
    (hposition : state.calls[position]? = some (.promotePointers modelId priorId)) :
    RegistryInv ⟨{ state.store with active := some modelId, prior := priorId },
      replaceAt state.calls position (some .audit), state.stopped, modelId :: state.trail⟩ := by
  rcases hinv.call hposition with ⟨hactive, hne, record, hrecord, hstate⟩
  constructor
  · exact hinv.keyed
  · exact hinv.evidence
  · rfl
  · intro activeId hactiveId
    cases hactiveId
    exact ⟨record, hrecord, .inl hstate⟩
  · intro before hbefore
    cases hbefore
    have htrail := hinv.active
    rw [hactive] at htrail
    rcases hcases : state.trail with _ | ⟨head, rest⟩
    · rw [hcases] at htrail
      cases htrail
    · rw [hcases] at htrail
      cases htrail
      refine ⟨modelId, rest, rfl, fun heq ↦ hne (congrArg some heq.symm), ?_⟩
      exact hinv.active_of_moves hposition rfl rfl hactive
  · intro other otherRecord hother hotherState
    rcases hinv.named other otherRecord hother hotherState with htrail | ⟨before, hpending⟩
    · exact .inl (List.mem_cons_of_mem _ htrail)
    · rcases hinv.promotion_of_moves hposition rfl hpending with heq | hstopped
      · cases heq
        exact .inl List.mem_cons_self
      · exact .inr ⟨before, List.mem_append_right _ hstopped⟩
  · intro other hother
    rcases mem_replaceAt.mp hother with hnew | hold
    · cases hnew
      trivial
    · exact ((hinv.others hposition).1 other hold).pointers
        (hinv.stays_of_moves hposition rfl hold) _ _
  · refine hinv.compatible_replaceAt hposition fun other hother ↦ ?_
    cases hother
    exact ⟨.inl rfl, nofun⟩

/-- The pointers move back to the version that was active before. -/
theorem rollbackPointers (hinv : RegistryInv state) {activeId priorId : String}
    (hposition : state.calls[position]? = some (.rollbackPointers activeId priorId)) :
    RegistryInv ⟨{ state.store with active := some priorId, prior := none },
      replaceAt state.calls position (some .audit), state.stopped, priorId :: state.trail⟩ := by
  rcases hinv.call hposition with ⟨hactive, hprior, -⟩
  rcases hinv.prior priorId hprior with ⟨current, rest, htrail, hne, record, hrecord, hstate⟩
  constructor
  · exact hinv.keyed
  · exact hinv.evidence
  · rfl
  · intro restored hrestored
    cases hrestored
    refine ⟨record, hrecord, hstate.imp_right fun ⟨hrolledBack, other, hstopped, htake⟩ ↦ ?_⟩
    exact ⟨hrolledBack, other, List.mem_append_right _ hstopped, htake⟩
  · intro before hbefore
    cases hbefore
  · intro other otherRecord hother hotherState
    rcases hinv.named other otherRecord hother hotherState with hnamed | ⟨before, hpending⟩
    · exact .inl (List.mem_cons_of_mem _ hnamed)
    · rcases hinv.promotion_of_moves hposition rfl hpending with heq | hstopped
      · cases heq
      · exact .inr ⟨before, List.mem_append_right _ hstopped⟩
  · intro other hother
    rcases mem_replaceAt.mp hother with hnew | hold
    · cases hnew
      trivial
    · exact ((hinv.others hposition).1 other hold).pointers
        (hinv.stays_of_moves hposition rfl hold) _ _
  · refine hinv.compatible_replaceAt hposition fun other hother ↦ ?_
    cases hother
    exact ⟨.inl rfl, nofun⟩

/-- A call starts beside calls it is compatible with. -/
theorem start (hinv : RegistryInv state) {request : Request F Bundle}
    (hcompatible : ∀ other ∈ state.calls, request.operation.Compatible other) :
    RegistryInv { state with calls := request.operation :: state.calls } where
  keyed := hinv.keyed
  evidence := hinv.evidence
  active := hinv.active
  activeRecord activeId hactive := by
    rcases hinv.activeRecord activeId hactive with ⟨record, hrecord, hstate⟩
    refine ⟨record, hrecord, hstate.imp_right fun ⟨hrolledBack, other, hother, htake⟩ ↦ ?_⟩
    exact ⟨hrolledBack, other, List.mem_cons_of_mem _ hother, htake⟩
  prior := hinv.prior
  named modelId record hrecord hstate := by
    refine (hinv.named modelId record hrecord hstate).imp_right fun ⟨priorId, hpending⟩ ↦ ?_
    exact ⟨priorId, List.mem_cons_of_mem _ hpending⟩
  calls other hother := by
    rcases List.mem_cons.mp hother with rfl | hold
    · cases request <;> trivial
    · exact hinv.calls other hold
  compatible := List.pairwise_cons.mpr ⟨hcompatible, hinv.compatible⟩

/-- A call is stopped by a store error. -/
theorem stop (hinv : RegistryInv state) (hposition : state.calls[position]? = some operation) :
    RegistryInv { state with
      calls := state.calls.eraseIdx position
      stopped := operation :: state.stopped } := by
  have hunfinished : ∀ other ∈ state.unfinished,
      other ∈ state.calls.eraseIdx position ++ operation :: state.stopped := by
    intro other hother
    rcases List.mem_append.mp hother with hcalls | hstopped
    · rcases (mem_pending hposition other).mp hcalls with rfl | hrest
      · exact List.mem_append_right _ List.mem_cons_self
      · exact List.mem_append_left _ hrest
    · exact List.mem_append_right _ (List.mem_cons_of_mem _ hstopped)
  constructor
  · exact hinv.keyed
  · exact hinv.evidence
  · exact hinv.active
  · intro activeId hactive
    rcases hinv.activeRecord activeId hactive with ⟨record, hrecord, hstate⟩
    refine ⟨record, hrecord, hstate.imp_right fun ⟨hrolledBack, other, hother, htake⟩ ↦ ?_⟩
    exact ⟨hrolledBack, other, hunfinished other hother, htake⟩
  · intro priorId hprior
    rcases hinv.prior priorId hprior with ⟨current, rest, htrail, hne, record, hrecord, hstate⟩
    refine ⟨current, rest, htrail, hne, record, hrecord, ?_⟩
    refine hstate.imp_right fun ⟨hrolledBack, other, hother, htake⟩ ↦ ?_
    exact ⟨hrolledBack, other, List.mem_cons_of_mem _ hother, htake⟩
  · intro modelId record hrecord hstate
    refine (hinv.named modelId record hrecord hstate).imp_right fun ⟨priorId, hpending⟩ ↦ ?_
    exact ⟨priorId, hunfinished _ hpending⟩
  · exact (hinv.others hposition).1
  · exact (hinv.others hposition).2.2

end RegistryInv

theorem state_of_promoteChecks {candidate : ModelVersion F Bundle} {approved : Bool}
    {gate : GateConfig F} {nowMs : ℤ}
    (hchecks : promoteChecks candidate approved gate nowMs = .ok ()) :
    candidate.state = .shadowCandidate := by
  by_contra hstate
  unfold promoteChecks at hchecks
  rw [if_pos hstate] at hchecks
  cases hchecks

section

variable [Add F] [LT F] [DecidableLT F] {wilsonBound : WilsonBound F}

theorem decideEvidence_cases (candidate : ModelVersion F Bundle) (evidence : GateEvidence F)
    (gate : GateConfig F) (active : Option (ModelVersion F Bundle)) (nowMs : ℤ) :
    ∃ shadowSince decided,
      decideEvidence wilsonBound candidate evidence gate active nowMs =
        ⟨candidate.modelId, candidate.bundle, some evidence, shadowSince, decided⟩ ∧
      (decided = .shadowCandidate ∨ decided = .rejected) := by
  unfold decideEvidence
  extract_lets reasons
  split
  · exact ⟨_, _, rfl, .inl rfl⟩
  · exact ⟨_, _, rfl, .inr rfl⟩

/-- The record that is decided on can be written. -/
theorem callInv_attachWrite {store : RegistryStore F Bundle} {candidate : ModelVersion F Bundle}
    (hrecord : store.models candidate.modelId = some candidate)
    (hstate : candidate.state = .candidate)
    (evidence : GateEvidence F) (gate : GateConfig F) (active : Option (ModelVersion F Bundle))
    (nowMs : ℤ) (against : Option String) :
    CallInv store (.attachWrite
      (decideEvidence wilsonBound candidate evidence gate active nowMs) against) := by
  rcases @decideEvidence_cases _ _ _ _ _ wilsonBound candidate evidence gate active nowMs with
    ⟨shadowSince, decided, hdecided, hstates⟩
  rw [hdecided]
  exact ⟨candidate, hrecord, hstate, rfl, rfl, hstates⟩

theorem modelId_decideEvidence (candidate : ModelVersion F Bundle) (evidence : GateEvidence F)
    (gate : GateConfig F) (active : Option (ModelVersion F Bundle)) (nowMs : ℤ) :
    (decideEvidence wilsonBound candidate evidence gate active nowMs).modelId =
      candidate.modelId := by
  rcases @decideEvidence_cases _ _ _ _ _ wilsonBound candidate evidence gate active nowMs with
    ⟨_, _, hdecided, -⟩
  rw [hdecided]

/-- Every round trip keeps the invariant. -/
theorem RegistryInv.advance (hinv : RegistryInv state)
    (hposition : state.calls[position]? = some operation) {nowMs : ℤ}
    {store : RegistryStore F Bundle} {progress : Progress F Bundle}
    (hperform : perform wilsonBound state.store nowMs operation = (store, progress)) :
    RegistryInv ⟨store, replaceAt state.calls position progress.operation, state.stopped,
      operation.named ++ state.trail⟩ := by
  have hcall := hinv.call hposition
  cases operation with
  | registerExists version =>
      simp only [perform] at hperform
      split at hperform
      · cases hperform
        exact hinv.returns hposition rfl nofun
      · rename_i hexists
        cases hperform
        exact hinv.goesOn hposition ⟨.inr rfl, nofun⟩
          ⟨Option.not_isSome_iff_eq_none.mp hexists, rfl, rfl⟩ rfl nofun
  | registerWrite version =>
      rcases hcall with ⟨hfree, hstate, hevidence⟩
      cases hperform
      have hpointers := hinv.not_pointed fun record hrecord ↦ nomatch hfree.symm.trans hrecord
      refine hinv.write hposition rfl ⟨.inl rfl, nofun⟩ trivial (iff_of_true hstate hevidence)
        (fun hactive ↦ absurd hactive hpointers.1) hpointers.2 (fun hactive ↦ ?_) rfl nofun
      cases hstate.symm.trans hactive
  | attachRead modelId evidence gate =>
      simp only [perform] at hperform
      split at hperform
      · cases hperform
        exact hinv.returns hposition rfl nofun
      · rename_i candidate hcandidate
        split at hperform
        · cases hperform
          exact hinv.returns hposition rfl nofun
        · rename_i hstate
          cases hperform
          obtain rfl := hinv.keyed modelId candidate hcandidate
          exact hinv.goesOn hposition ⟨.inr rfl, nofun⟩ ⟨hcandidate, not_not.mp hstate⟩ rfl nofun
  | attachActive candidate evidence gate =>
      rcases hcall with ⟨hrecord, hstate⟩
      simp only [perform] at hperform
      split at hperform
      · cases hperform
        refine hinv.goesOn hposition ⟨.inr (congrArg some ?_), nofun⟩ ?_ rfl nofun
        · exact modelId_decideEvidence candidate evidence gate none nowMs
        · exact callInv_attachWrite hrecord hstate evidence gate none nowMs none
      · cases hperform
        exact hinv.goesOn hposition ⟨.inr rfl, nofun⟩ ⟨hrecord, hstate⟩ rfl nofun
  | attachActiveModel candidate evidence gate activeId =>
      rcases hcall with ⟨hrecord, hstate⟩
      cases hperform
      refine hinv.goesOn hposition ⟨.inr (congrArg some ?_), nofun⟩ ?_ rfl nofun
      · exact modelId_decideEvidence candidate evidence gate _ nowMs
      · exact callInv_attachWrite hrecord hstate evidence gate _ nowMs (some activeId)
  | attachWrite decided against =>
      rcases hcall with ⟨candidate, hrecord, hcandidate, -, hevidence, hstates⟩
      cases hperform
      have hstate : decided.state ≠ .candidate ∧ decided.state ≠ .active := by
        rcases hstates with hstate | hstate <;> rw [hstate] <;> exact ⟨nofun, nofun⟩
      have hpointers := hinv.not_pointed fun record hstored ↦ by
        cases hrecord.symm.trans hstored
        rw [hcandidate]
        exact ⟨nofun, nofun⟩
      exact hinv.write hposition rfl ⟨.inl rfl, nofun⟩ trivial
        (iff_of_false hstate.1 (Option.isSome_iff_ne_none.mp hevidence))
        (fun hactive ↦ absurd hactive hpointers.1) hpointers.2
        (fun hactive ↦ absurd hactive hstate.2) rfl nofun
  | promoteRead modelId approved gate =>
      simp only [perform] at hperform
      split at hperform
      · cases hperform
        exact hinv.returns hposition rfl nofun
      · rename_i candidate hcandidate
        split at hperform
        · cases hperform
          exact hinv.returns hposition rfl nofun
        · rename_i hchecks
          cases hperform
          obtain rfl := hinv.keyed modelId candidate hcandidate
          exact hinv.goesOn hposition ⟨.inr rfl, fun _ ↦ rfl⟩
            ⟨hcandidate, state_of_promoteChecks hchecks⟩ rfl nofun
  | promoteActive candidate =>
      rcases hcall with ⟨hrecord, hstate⟩
      have hback : ({ candidate with state := .shadowCandidate } : ModelVersion F Bundle) =
          candidate := by rw [← hstate]
      simp only [perform] at hperform
      split at hperform
      · rename_i hactive
        cases hperform
        exact hinv.goesOn hposition ⟨.inr rfl, fun _ ↦ rfl⟩
          ⟨hrecord.trans (congrArg some hback.symm), rfl, hactive⟩ rfl nofun
      · rename_i activeId hactive
        cases hperform
        exact hinv.goesOn hposition ⟨.inr rfl, fun _ ↦ rfl⟩ ⟨hrecord, hstate, hactive⟩ rfl nofun
  | promoteActiveModel candidate activeId =>
      rcases hcall with ⟨hrecord, hstate, hactive⟩
      have hback : ({ candidate with state := .shadowCandidate } : ModelVersion F Bundle) =
          candidate := by rw [← hstate]
      rcases hinv.activeRecord activeId hactive with ⟨record, hactiveRecord, -⟩
      have hid := hinv.keyed activeId record hactiveRecord
      cases hperform
      refine hinv.goesOn hposition ⟨.inr rfl, fun _ ↦ rfl⟩
        ⟨hrecord.trans (congrArg some hback.symm), rfl, ?_⟩ rfl nofun
      rw [hactive, hactiveRecord, Option.map_some, hid]
  | promoteWrite candidate priorId =>
      rcases hcall with ⟨hrecord, hstate, hactive⟩
      cases hperform
      have hevidence : candidate.evidence ≠ none := fun hnone ↦
        nomatch (hinv.evidence _ _ hrecord).mpr hnone
      have hpointers := hinv.not_pointed fun record hstored ↦ by
        cases hrecord.symm.trans hstored
        exact ⟨nofun, nofun⟩
      refine hinv.write hposition rfl ⟨.inr rfl, fun _ ↦ rfl⟩ ⟨hactive, ?_, candidate, ?_, hstate⟩
        (iff_of_false ?_ hevidence) (fun hsame ↦ absurd hsame hpointers.1) hpointers.2
        (fun _ ↦ ⟨priorId, rfl⟩) rfl nofun
      · rw [← hactive]
        exact hpointers.1
      · exact Function.update_self _ _ _
      · rw [hstate]
        nofun
  | promotePointers modelId priorId =>
      cases hperform
      exact hinv.promotePointers hposition
  | rollbackActive =>
      cases hperform
      exact hinv.goesOn hposition ⟨.inl rfl, fun _ ↦ rfl⟩ rfl rfl nofun
  | rollbackPrior activeId =>
      simp only [perform] at hperform
      split at hperform
      · cases hperform
        exact hinv.returns hposition rfl nofun
      · cases hperform
        exact hinv.returns hposition rfl nofun
      · rename_i active prior hprior
        cases hperform
        exact hinv.goesOn hposition ⟨.inl rfl, fun _ ↦ rfl⟩ ⟨hcall, hprior⟩ rfl nofun
  | rollbackRead activeId priorId =>
      rcases hcall with ⟨hactive, hprior⟩
      rcases hinv.activeRecord activeId hactive with ⟨record, hrecord, hstate⟩
      obtain rfl := hinv.keyed activeId record hrecord
      simp only [perform, hrecord] at hperform
      cases hperform
      exact hinv.goesOn hposition ⟨.inl rfl, fun _ ↦ rfl⟩
        ⟨hactive, hprior, rfl, record.state, hrecord, hstate.imp_right And.left⟩ rfl nofun
  | rollbackWrite active priorId =>
      rcases hcall with ⟨hactive, hprior, hstate, before, hrecord, hbefore⟩
      cases hperform
      have hevidence : active.evidence ≠ none := by
        intro hnone
        obtain rfl : before = .candidate := (hinv.evidence _ _ hrecord).mpr hnone
        rcases hbefore with hbefore | hbefore <;> cases hbefore
      refine hinv.write hposition rfl ⟨.inl rfl, fun _ ↦ rfl⟩
        ⟨hactive, hprior, active, ?_, hstate⟩ (iff_of_false ?_ hevidence)
        (fun _ ↦ ⟨hstate, rfl⟩) (fun hsame ↦ ?_) (fun hstays ↦ ?_) rfl nofun
      · exact Function.update_self _ _ _
      · rw [hstate]
        nofun
      · rcases hinv.prior active.modelId hsame with ⟨current, rest, htrail, hne, -⟩
        rw [hinv.active, htrail] at hactive
        exact hne (Option.some.inj hactive)
      · cases hstate.symm.trans hstays
  | rollbackRestored activeId priorId =>
      rcases hinv.prior priorId hcall.2.1 with ⟨_, _, -, -, record, hrecord, -⟩
      simp only [perform, hrecord] at hperform
      cases hperform
      refine hinv.read hposition ?_ (fun _ htake ↦ ⟨_, rfl, htake⟩) nofun
      rintro _ ⟨⟩
      exact ⟨⟨.inl rfl, fun _ ↦ rfl⟩, hcall⟩
  | rollbackPointers activeId priorId =>
      cases hperform
      exact hinv.rollbackPointers hposition
  | audit =>
      cases hperform
      exact hinv.returns hposition rfl nofun

end

end Deblob.Models
