import Deblob.Models.RegistryInvariant

/-!
# The governed registry

What holds in every run of one writer at a time, with store errors anywhere: the active pointer
names a version that was promoted, evidence and bundles stay, a call that is refused has changed
nothing, and a rollback goes back by one. A store error between the two writes of a promotion or a
rollback leaves the record ahead of the pointers.
-/

namespace Deblob.Models

open Lib

variable {F Bundle : Type}

/-- No version is lost, and neither its bundle nor its evidence is replaced. -/
def RegistryStore.Keeps (before after : RegistryStore F Bundle) : Prop :=
  ∀ modelId record, before.models modelId = some record →
    ∃ later, after.models modelId = some later ∧ later.bundle = record.bundle ∧
      ∀ evidence, record.evidence = some evidence → later.evidence = some evidence

namespace RegistryStore.Keeps

variable {before between after store : RegistryStore F Bundle}

theorem of_models (hmodels : after.models = before.models) : before.Keeps after :=
  fun modelId record hrecord ↦
    ⟨record, (congrFun hmodels modelId).trans hrecord, rfl, fun _ hevidence ↦ hevidence⟩

theorem trans (hfirst : before.Keeps between) (hsecond : between.Keeps after) :
    before.Keeps after := by
  intro modelId record hrecord
  rcases hfirst modelId record hrecord with ⟨middle, hmiddle, hbundle, hevidence⟩
  rcases hsecond modelId middle hmiddle with ⟨later, hlater, hbundle', hevidence'⟩
  refine ⟨later, hlater, hbundle'.trans hbundle, fun evidence hsome ↦ ?_⟩
  exact hevidence' evidence (hevidence evidence hsome)

theorem writeModel {version : ModelVersion F Bundle}
    (hversion : ∀ record, store.models version.modelId = some record →
      version.bundle = record.bundle ∧
        ∀ evidence, record.evidence = some evidence → version.evidence = some evidence) :
    store.Keeps (store.writeModel version) := by
  intro modelId record hrecord
  by_cases hid : modelId = version.modelId
  · subst hid
    exact ⟨version, Function.update_self _ _ _, hversion record hrecord⟩
  · refine ⟨record, (Function.update_of_ne hid _ _).trans hrecord, rfl, ?_⟩
    exact fun _ hevidence ↦ hevidence

end RegistryStore.Keeps

section

variable [Add F] [LT F] [DecidableLT F] {wilsonBound : WilsonBound F}
  {state next : RegistryState F Bundle} {event : RegistryEvent F Bundle}
  {operation : Operation F Bundle} {position : ℕ} {nowMs : ℤ}

/-! ## Runs keep the invariant -/

theorem registryInv_init : RegistryInv (@registryMachine F Bundle _ _ _ wilsonBound).init where
  keyed _ _ hrecord := nomatch hrecord
  evidence _ _ hrecord := nomatch hrecord
  active := rfl
  activeRecord _ hactive := nomatch hactive
  prior _ hprior := nomatch hprior
  named _ _ hrecord := nomatch hrecord
  calls _ hcall := nomatch hcall
  compatible := .nil

theorem RegistryInv.step (hinv : RegistryInv state) (hallowed : oneWriter state event)
    (hstep : (registryMachine wilsonBound).step state event = some next) : RegistryInv next := by
  cases event with
  | start request =>
      cases hstep
      exact hinv.start hallowed
  | advance position nowMs =>
      rcases Option.map_eq_some_iff.mp hstep with ⟨operation, hposition, rfl⟩
      exact hinv.advance hposition
        (rfl : perform wilsonBound state.store nowMs operation = (_, _))
  | stop position =>
      rcases Option.map_eq_some_iff.mp hstep with ⟨operation, hposition, rfl⟩
      exact hinv.stop hposition

theorem registryInv_of_reachable
    (reached : (registryMachine wilsonBound).Reachable oneWriter state) : RegistryInv state :=
  reached.invariant registryInv_init fun _ _ _ hinv hallowed hstep ↦ hinv.step hallowed hstep

/-! ## What one event does to the store -/

/-- The version a round trip writes. -/
def Operation.written : Operation F Bundle → Option (ModelVersion F Bundle)
  | .registerWrite version => some version
  | .attachWrite decided _ => some decided
  | .promoteWrite candidate _ => some candidate
  | .rollbackWrite active _ => some active
  | _ => none

theorem models_perform (store : RegistryStore F Bundle) (operation : Operation F Bundle) :
    (perform wilsonBound store nowMs operation).1.models =
      operation.written.elim store.models fun version ↦ (store.writeModel version).models := by
  cases operation <;> simp only [perform] <;> (try split) <;> (try split) <;> rfl

/-- What is stored after a round trip was stored before, or is the version it writes. -/
theorem stored_perform {store : RegistryStore F Bundle} {modelId : String}
    {record : ModelVersion F Bundle}
    (hrecord : (perform wilsonBound store nowMs operation).1.models modelId = some record) :
    operation.written = some record ∧ record.modelId = modelId ∨
      store.models modelId = some record ∧
        ∀ version, operation.written = some version → version.modelId ≠ modelId := by
  rw [models_perform] at hrecord
  cases hwritten : operation.written with
  | none =>
      rw [hwritten] at hrecord
      exact .inr ⟨hrecord, nofun⟩
  | some version =>
      rw [hwritten] at hrecord
      by_cases hid : modelId = version.modelId
      · subst hid
        cases (Function.update_self version.modelId _ store.models).symm.trans hrecord
        exact .inl ⟨rfl, rfl⟩
      · refine .inr ⟨(Function.update_of_ne hid _ _).symm.trans hrecord, ?_⟩
        rintro _ ⟨⟩ rfl
        exact hid rfl

/-- A round trip keeps the records, their bundles and their evidence. -/
theorem RegistryInv.keeps_perform (hinv : RegistryInv state)
    (hposition : state.calls[position]? = some operation) :
    state.store.Keeps (perform wilsonBound state.store nowMs operation).1 := by
  have hcall := hinv.call hposition
  cases operation <;> simp only [perform] <;> (try split) <;> (try split) <;>
    try exact .of_models rfl
  case registerWrite version =>
    refine .writeModel fun record hrecord ↦ ?_
    cases hcall.1.symm.trans hrecord
  case attachWrite decided against =>
    rcases hcall with ⟨candidate, hcandidate, hstate, hbundle, -⟩
    refine .writeModel fun record hrecord ↦ ?_
    cases hcandidate.symm.trans hrecord
    refine ⟨hbundle, fun evidence hevidence ↦ ?_⟩
    cases ((hinv.evidence _ _ hcandidate).mp hstate).symm.trans hevidence
  case promoteWrite candidate priorId =>
    refine .writeModel fun record hrecord ↦ ?_
    cases hcall.1.symm.trans hrecord
    exact ⟨rfl, fun _ hevidence ↦ hevidence⟩
  case rollbackWrite active priorId =>
    rcases hcall with ⟨-, -, -, before, hbefore, -⟩
    refine .writeModel fun record hrecord ↦ ?_
    cases hbefore.symm.trans hrecord
    exact ⟨rfl, fun _ hevidence ↦ hevidence⟩

theorem RegistryInv.keeps_step (hinv : RegistryInv state)
    (hstep : (registryMachine wilsonBound).step state event = some next) :
    state.store.Keeps next.store := by
  cases event with
  | start request =>
      cases hstep
      exact .of_models rfl
  | advance position nowMs =>
      rcases Option.map_eq_some_iff.mp hstep with ⟨operation, hposition, rfl⟩
      exact hinv.keeps_perform hposition
  | stop position =>
      rcases Option.map_eq_some_iff.mp hstep with ⟨operation, hposition, rfl⟩
      exact .of_models rfl

/-- From a state of a run on, every later state keeps what is stored. -/
theorem RegistryInv.keeps_of_reachableFrom (hinv : RegistryInv state)
    {later : RegistryState F Bundle}
    (reached : (registryMachine wilsonBound).ReachableFrom oneWriter state later) :
    state.store.Keeps later.store := by
  have hboth : RegistryInv later ∧ state.store.Keeps later.store := by
    induction reached with
    | refl => exact ⟨hinv, .of_models rfl⟩
    | step _ hallowed hstep ih =>
        exact ⟨ih.1.step hallowed hstep, ih.2.trans (ih.1.keeps_step hstep)⟩
  exact hboth.2

/-- A call that is refused at a round trip changes nothing there. -/
theorem store_of_failed {store after : RegistryStore F Bundle} {error : RegistryError}
    (hperform : perform wilsonBound store nowMs operation = (after, .failed error)) :
    after = store := by
  cases operation <;> simp only [perform] at hperform <;>
    (try split at hperform) <;> (try split at hperform) <;> cases hperform <;> rfl

/-- A call that has not written when it goes on has not written before. -/
theorem store_of_not_wrote {store after : RegistryStore F Bundle} {following : Operation F Bundle}
    (hperform : perform wilsonBound store nowMs operation = (after, .next following))
    (hwrote : following.wrote = false) : after = store ∧ operation.wrote = false := by
  cases operation <;> simp only [perform] at hperform <;>
    (try split at hperform) <;> (try split at hperform) <;> cases hperform <;>
    first | exact ⟨rfl, rfl⟩ | cases hwrote

/-- A call that is refused has not written. -/
theorem RegistryInv.not_wrote_of_failed (hinv : RegistryInv state)
    (hposition : state.calls[position]? = some operation) {after : RegistryStore F Bundle}
    {error : RegistryError}
    (hperform : perform wilsonBound state.store nowMs operation = (after, .failed error)) :
    operation.wrote = false := by
  have hcall := hinv.call hposition
  cases operation <;> first | rfl | skip
  case promotePointers modelId priorId => cases hperform
  case rollbackRestored activeId priorId =>
    rcases hinv.pointed (.inr hcall.2.1) with ⟨record, hrecord, -⟩
    simp only [perform, hrecord] at hperform
    cases hperform
  case rollbackPointers activeId priorId => cases hperform
  case audit => cases hperform

/-! ## The registry is governed -/

/-- The store, the calls and the history of the active pointer, seen from one state of a run. -/
structure Governed (wilsonBound : WilsonBound F) (state : RegistryState F Bundle) : Prop where
  /-- The active version has evidence, and its record is active until a rollback takes it back. -/
  active : ∀ activeId, state.store.active = some activeId →
    ∃ record, state.store.models activeId = some record ∧ record.evidence.isSome ∧
      (record.state = .active ∨ record.state = .rolledBack ∧
        ∃ operation ∈ state.unfinished, operation.takesBack = some activeId)
  keeps : ∀ later, (registryMachine wilsonBound).ReachableFrom oneWriter state later →
    state.store.Keeps later.store
  /-- An active record was named by the active pointer, or its promotion has not set it yet. -/
  named : ∀ modelId record, state.store.models modelId = some record → record.state = .active →
    modelId ∈ state.trail ∨ ∃ priorId, .promotePointers modelId priorId ∈ state.unfinished
  /-- The event at which a call returns an error changes nothing. -/
  error : ∀ event next error, (registryMachine wilsonBound).step state event = some next →
    returnedError wilsonBound state event = some error → next.store = state.store
  /-- A call that is refused has not written before either. -/
  refused : ∀ (position : ℕ) nowMs operation error, state.calls[position]? = some operation →
    returnedError wilsonBound state (.advance position nowMs) = some error →
      operation.wrote = false
  /-- As long as a call has not written, it has changed nothing. -/
  silent : ∀ (position : ℕ) nowMs operation after following,
    state.calls[position]? = some operation →
    perform wilsonBound state.store nowMs operation = (after, .next following) →
      following.wrote = false → after = state.store ∧ operation.wrote = false
  /-- The pointer write of a rollback goes back to the version that was active before. -/
  restored : ∀ (position : ℕ) nowMs next activeId priorId,
    state.calls[position]? = some (.rollbackPointers activeId priorId) →
    (registryMachine wilsonBound).step state (.advance position nowMs) = some next →
      (∃ rest, state.trail = activeId :: priorId :: rest) ∧
        state.store.active = some activeId ∧ next.store.active = some priorId ∧
        next.trail = priorId :: state.trail

theorem returnedError_advance {error : RegistryError}
    (hposition : state.calls[position]? = some operation)
    (herror : returnedError wilsonBound state (.advance position nowMs) = some error) :
    ∃ after, perform wilsonBound state.store nowMs operation = (after, .failed error) := by
  simp only [returnedError, hposition, Option.bind_some] at herror
  cases hperform : perform wilsonBound state.store nowMs operation with
  | mk after progress =>
      rw [hperform] at herror
      cases progress with
      | next following => cases herror
      | done => cases herror
      | failed failure =>
          cases herror
          exact ⟨after, rfl⟩

theorem store_of_returnedError {error : RegistryError}
    (hstep : (registryMachine wilsonBound).step state event = some next)
    (herror : returnedError wilsonBound state event = some error) : next.store = state.store := by
  cases event with
  | start request => cases herror
  | advance position nowMs =>
      rcases Option.map_eq_some_iff.mp hstep with ⟨operation, hposition, rfl⟩
      rcases returnedError_advance hposition herror with ⟨after, hperform⟩
      simp only [hperform]
      exact store_of_failed hperform
  | stop position =>
      rcases Option.map_eq_some_iff.mp hstep with ⟨operation, hposition, rfl⟩
      rfl

/-- The registry is governed in every state of every run of one writer at a time. -/
theorem registry_governed (reached : (registryMachine wilsonBound).Reachable oneWriter state) :
    Governed wilsonBound state := by
  have hinv := registryInv_of_reachable reached
  constructor
  · intro activeId hactive
    rcases hinv.activeRecord activeId hactive with ⟨record, hrecord, hstate⟩
    refine ⟨record, hrecord, ?_, hstate⟩
    exact hinv.evidence_of_promoted hrecord (hstate.imp_right And.left)
  · exact fun later hlater ↦ hinv.keeps_of_reachableFrom hlater
  · exact hinv.named
  · exact fun event next error hstep herror ↦ store_of_returnedError hstep herror
  · intro position nowMs operation error hposition herror
    rcases returnedError_advance hposition herror with ⟨after, hperform⟩
    exact hinv.not_wrote_of_failed hposition hperform
  · exact fun position nowMs operation after following _ hperform hwrote ↦
      store_of_not_wrote hperform hwrote
  · intro position nowMs next activeId priorId hposition hstep
    rcases Option.map_eq_some_iff.mp hstep with ⟨operation, hoperation, rfl⟩
    cases hposition.symm.trans hoperation
    rcases hinv.call hposition with ⟨hactive, hprior, -⟩
    rcases hinv.prior priorId hprior with ⟨current, rest, htrail, -⟩
    have hcurrent := hactive
    rw [hinv.active, htrail] at hcurrent
    cases hcurrent
    exact ⟨⟨rest, htrail⟩, hactive, rfl, rfl⟩

end

/-! ## Runs on two versions -/

/-- A call that arrives when no other is in progress, and makes some round trips. -/
def Request.alone (request : Request F Bundle) (rounds : ℕ) : List (RegistryEvent F Bundle) :=
  .start request :: List.replicate rounds (.advance 0 0)

def registeredVersion (modelId : String) : ModelVersion ℕ String :=
  ⟨modelId, modelId ++ "-bundle", none, none, .candidate⟩

def accurateEvidence (accuracy : ℕ) : GateEvidence ℕ :=
  ⟨⟨10, 0, 5, 0, 1, accuracy, none⟩, [], some 0⟩

def zeroGate : GateConfig ℕ := ⟨0, 0, 0, 0, 0, 0, 0, 0, 0, 0, true, 0⟩

/-- Register two versions and promote one after the other. -/
def promoteTwo : List (RegistryEvent ℕ String) :=
  Request.alone (.registerCandidate (registeredVersion "a")) 3 ++
  Request.alone (.attachEvidence "a" (accurateEvidence 1) zeroGate) 4 ++
  Request.alone (.promote "a" true zeroGate) 5 ++
  Request.alone (.registerCandidate (registeredVersion "b")) 3 ++
  Request.alone (.attachEvidence "b" (accurateEvidence 2) zeroGate) 5 ++
  Request.alone (.promote "b" true zeroGate) 6

theorem registry_governed_rolledBack : ∃ state : RegistryState ℕ String,
    state.store.active = some "a" ∧ state.trail = ["a", "b", "a"] ∧
      Governed (fun _ _ _ _ ↦ 0) state := by
  have hreplay : ∃ state, (registryMachine fun _ _ _ _ ↦ 0).replay oneWriter
      (registryMachine fun _ _ _ _ ↦ 0).init (promoteTwo ++ Request.rollback.alone 7) =
        some state ∧ state.store.active = some "a" ∧ state.trail = ["a", "b", "a"] :=
    ⟨_, rfl, rfl, rfl⟩
  rcases hreplay with ⟨state, hstate, hactive, htrail⟩
  exact ⟨state, hactive, htrail, registry_governed (Machine.reachableFrom_replay _ hstate)⟩

/-- A rollback that stops after its first write leaves a version active whose record is not, and
overlapping calls replace evidence. -/
theorem registry_ungoverned :
    (∃ state : RegistryState ℕ String,
      (registryMachine fun _ _ _ _ ↦ 0).Reachable Machine.always state ∧
      state.calls = [] ∧ ∃ activeId record, state.store.active = some activeId ∧
        state.store.models activeId = some record ∧ record.state ≠ .active) ∧
    ∃ state later : RegistryState ℕ String,
      (registryMachine fun _ _ _ _ ↦ 0).Reachable Machine.always state ∧
      (registryMachine fun _ _ _ _ ↦ 0).ReachableFrom Machine.always state later ∧
      ∃ record laterRecord, state.store.models "a" = some record ∧ record.evidence.isSome ∧
        later.store.models "a" = some laterRecord ∧ laterRecord.evidence ≠ record.evidence := by
  constructor
  · have hreplay : ∃ state, (registryMachine fun _ _ _ _ ↦ 0).replay Machine.always
        (registryMachine fun _ _ _ _ ↦ 0).init
        (promoteTwo ++ Request.rollback.alone 4 ++ [.stop 0]) = some state ∧
          state.calls = [] ∧ state.store.active = some "b" ∧
            (state.store.models "b").map ModelVersion.state = some .rolledBack :=
      ⟨_, rfl, rfl, rfl, rfl⟩
    rcases hreplay with ⟨state, hstate, hcalls, hactive, hmodel⟩
    rcases Option.map_eq_some_iff.mp hmodel with ⟨record, hrecord, hrolledBack⟩
    refine ⟨state, Machine.reachableFrom_replay _ hstate, hcalls, "b", record, hactive, hrecord, ?_⟩
    rw [hrolledBack]
    nofun
  · have hreplay : ∃ state, (registryMachine fun _ _ _ _ ↦ 0).replay Machine.always
        (registryMachine fun _ _ _ _ ↦ 0).init
        (Request.alone (.registerCandidate (registeredVersion "a")) 3 ++
          Request.alone (.attachEvidence "a" (accurateEvidence 1) zeroGate) 2 ++
          Request.alone (.attachEvidence "a" (accurateEvidence 2) zeroGate) 3) = some state ∧
          (state.store.models "a").map ModelVersion.evidence = some (some (accurateEvidence 2)) ∧
          ∃ later, (registryMachine fun _ _ _ _ ↦ 0).replay Machine.always state
            [.advance 1 0] = some later ∧
            (later.store.models "a").map ModelVersion.evidence =
              some (some (accurateEvidence 1)) :=
      ⟨_, rfl, rfl, _, rfl, rfl⟩
    rcases hreplay with ⟨state, hstate, hmodel, later, hlater, hlaterModel⟩
    rcases Option.map_eq_some_iff.mp hmodel with ⟨record, hrecord, hevidence⟩
    rcases Option.map_eq_some_iff.mp hlaterModel with ⟨laterRecord, hlaterRecord, hlaterEvidence⟩
    refine ⟨state, later, Machine.reachableFrom_replay _ hstate,
      Machine.reachableFrom_replay _ hlater, record, laterRecord, hrecord, ?_, hlaterRecord, ?_⟩
    · rw [hevidence]
      rfl
    · rw [hevidence, hlaterEvidence]
      decide

end Deblob.Models
