import Deblob.Models.Governed

/-!
# What a promotion was judged on

Evidence is judged once, when it is attached: by the gate, and against the version that is active at
that moment. The run records that version beside the registry. A promotion is not judged again, so
what it replaces may be another version, and better.
-/

namespace Deblob.Models

open Lib

variable {F Bundle : Type}

/-- The registry, and for each version the one its evidence was judged against. -/
structure JudgedRun (F Bundle : Type) where
  registry : RegistryState F Bundle
  judged : String → Option String

def Operation.judge (judged : String → Option String) :
    Operation F Bundle → String → Option String
  | .attachWrite decided against => Function.update judged decided.modelId against
  | _ => judged

def JudgedRun.judge (state : JudgedRun F Bundle) : RegistryEvent F Bundle → String → Option String
  | .start _ | .stop _ => state.judged
  | .advance position _ =>
    (state.registry.calls[position]?).elim state.judged (Operation.judge state.judged)

def Request.gate : Request F Bundle → Option (GateConfig F)
  | .registerCandidate _ | .rollback => none
  | .attachEvidence _ _ gate | .promote _ _ gate => some gate

/-- One writer at a time, and every call under the same gate. -/
def fixedGate (gate : GateConfig F) (state : JudgedRun F Bundle) (event : RegistryEvent F Bundle) :
    Prop :=
  oneWriter state.registry event ∧
    ∀ request, event = .start request → ∀ called ∈ request.gate, called = gate

/-- Calls one after the other under one gate, none of which is stopped by a store error. -/
def sequential (gate : GateConfig F) (state : RegistryState F Bundle) :
    RegistryEvent F Bundle → Prop
  | .start request => state.calls = [] ∧ ∀ called ∈ request.gate, called = gate
  | .advance .. => True
  | .stop _ => False

section

variable [Add F] [LT F] [DecidableLT F] (wilsonBound : WilsonBound F)

def judgingMachine : Machine (JudgedRun F Bundle) (RegistryEvent F Bundle) where
  init := ⟨(registryMachine wilsonBound).init, fun _ ↦ none⟩
  step state event := ((registryMachine wilsonBound).step state.registry event).map fun next ↦
    ⟨next, state.judge event⟩

/-- Evidence that passed the gate and is not worse than that of the version it was judged by. -/
def Passed (gate : GateConfig F) (store : RegistryStore F Bundle)
    (evidence : Option (GateEvidence F)) (against : Option String) : Prop :=
  ∃ own, evidence = some own ∧ gateReasons wilsonBound own gate = [] ∧
    ∀ activeId, against = some activeId → ∃ active activeEvidence,
      store.models activeId = some active ∧ active.evidence = some activeEvidence ∧
        regressionReasons own activeEvidence gate = []

/-- What a call in progress knows of the judgement. -/
def JudgedCall (gate : GateConfig F) (store : RegistryStore F Bundle) : Operation F Bundle → Prop
  | .attachRead _ _ called | .attachActive _ _ called => called = gate
  | .attachActiveModel _ _ called activeId => called = gate ∧
      ∃ active, store.models activeId = some active ∧ active.evidence.isSome
  | .attachWrite decided against => decided.state = .shadowCandidate →
      Passed wilsonBound gate store decided.evidence against
  | _ => True

/-- Every version that waits for its promotion, or had it, passed. -/
structure JudgedInv (gate : GateConfig F) (state : JudgedRun F Bundle) : Prop where
  registry : RegistryInv state.registry
  calls : ∀ operation ∈ state.registry.calls,
    JudgedCall wilsonBound gate state.registry.store operation
  passed : ∀ modelId record, state.registry.store.models modelId = some record →
    record.state ≠ .candidate → record.state ≠ .rejected →
      Passed wilsonBound gate state.registry.store record.evidence (state.judged modelId)

end

section

variable [Add F] [LT F] [DecidableLT F] {wilsonBound : WilsonBound F} {gate : GateConfig F}
  {state next : JudgedRun F Bundle} {event : RegistryEvent F Bundle}
  {operation : Operation F Bundle} {position : ℕ} {nowMs : ℤ}
  {store after : RegistryStore F Bundle}

theorem Passed.keeps {evidence : Option (GateEvidence F)} {against : Option String}
    (hpassed : Passed wilsonBound gate store evidence against) (hkeeps : store.Keeps after) :
    Passed wilsonBound gate after evidence against := by
  rcases hpassed with ⟨own, hown, hgate, hagainst⟩
  refine ⟨own, hown, hgate, fun activeId hactiveId ↦ ?_⟩
  rcases hagainst activeId hactiveId with ⟨active, activeEvidence, hactive, hevidence, hregression⟩
  rcases hkeeps activeId active hactive with ⟨later, hlater, -, hsame⟩
  exact ⟨later, activeEvidence, hlater, hsame activeEvidence hevidence, hregression⟩

theorem JudgedCall.keeps (hcall : JudgedCall wilsonBound gate store operation)
    (hkeeps : store.Keeps after) : JudgedCall wilsonBound gate after operation := by
  cases operation <;> try exact hcall
  case attachActiveModel candidate evidence called activeId =>
    rcases hcall with ⟨hgate, active, hactive, hevidence⟩
    rcases hkeeps activeId active hactive with ⟨later, hlater, -, hsame⟩
    rcases Option.isSome_iff_exists.mp hevidence with ⟨activeEvidence, hsome⟩
    exact ⟨hgate, later, hlater, Option.isSome_of_mem (hsame activeEvidence hsome)⟩
  case attachWrite decided against =>
    exact fun hstate ↦ (hcall hstate).keeps hkeeps

/-- A candidate enters the shadow lane only without a reason against it. -/
theorem reasons_of_decideEvidence {candidate : ModelVersion F Bundle} {evidence : GateEvidence F}
    {active : Option (ModelVersion F Bundle)}
    (hstate : (decideEvidence wilsonBound candidate evidence gate active nowMs).state =
      .shadowCandidate) :
    gateReasons wilsonBound evidence gate = [] ∧
      ∀ activeEvidence, active.bind ModelVersion.evidence = some activeEvidence →
        regressionReasons evidence activeEvidence gate = [] := by
  unfold decideEvidence at hstate
  extract_lets reasons at hstate
  split at hstate
  · rename_i hempty
    rcases List.append_eq_nil_iff.mp (List.isEmpty_iff.mp hempty) with ⟨hgate, hregression⟩
    refine ⟨hgate, fun activeEvidence hactive ↦ ?_⟩
    simpa only [hactive] using hregression
  · cases hstate

theorem evidence_decideEvidence (candidate : ModelVersion F Bundle) (evidence : GateEvidence F)
    (active : Option (ModelVersion F Bundle)) :
    (decideEvidence wilsonBound candidate evidence gate active nowMs).evidence = some evidence := by
  rcases @decideEvidence_cases _ _ _ _ _ wilsonBound candidate evidence gate active nowMs with
    ⟨_, _, hdecided, -⟩
  rw [hdecided]

/-- What a round trip leaves to do is judged under the same gate. -/
theorem JudgedInv.following (hinv : JudgedInv wilsonBound gate state)
    (hposition : state.registry.calls[position]? = some operation)
    {following : Operation F Bundle}
    (hperform : perform wilsonBound state.registry.store nowMs operation =
      (after, .next following)) :
    JudgedCall wilsonBound gate after following := by
  have hcall := hinv.calls operation (List.mem_of_getElem? hposition)
  cases operation
  case attachRead modelId evidence called =>
    simp only [perform] at hperform
    split at hperform
    · cases hperform
    · split at hperform
      · cases hperform
      · cases hperform
        exact hcall
  case attachActive candidate evidence called =>
    obtain rfl : called = gate := hcall
    simp only [perform] at hperform
    split at hperform
    · cases hperform
      intro hstate
      refine ⟨evidence, evidence_decideEvidence candidate evidence none, ?_, ?_⟩
      · exact (reasons_of_decideEvidence hstate).1
      · rintro _ ⟨⟩
    · rename_i activeId hactive
      cases hperform
      rcases hinv.registry.pointed (.inl hactive) with ⟨active, hrecord, hstate⟩
      refine ⟨rfl, active, hrecord, hinv.registry.evidence_of_promoted hrecord hstate⟩
  case attachActiveModel candidate evidence called activeId =>
    rcases hcall with ⟨rfl, active, hactive, hsome⟩
    rcases Option.isSome_iff_exists.mp hsome with ⟨activeEvidence, hevidence⟩
    cases hperform
    intro hstate
    rcases reasons_of_decideEvidence hstate with ⟨hgate, hregression⟩
    refine ⟨evidence, evidence_decideEvidence candidate evidence _, hgate, ?_⟩
    rintro _ ⟨⟩
    refine ⟨active, activeEvidence, hactive, hevidence, hregression activeEvidence ?_⟩
    rw [hactive]
    exact hevidence
  all_goals
    simp only [perform] at hperform
    (try split at hperform) <;> (try split at hperform) <;> cases hperform <;> trivial

omit [Add F] [LT F] [DecidableLT F] in
theorem judge_of_ne {judged : String → Option String} {modelId : String}
    (hne : ∀ version, operation.written = some version → version.modelId ≠ modelId) :
    operation.judge judged modelId = judged modelId := by
  cases operation <;> try rfl
  case attachWrite decided against =>
    exact Function.update_of_ne (hne decided rfl).symm _ _

/-- The version a round trip writes passed, if it is not rejected. -/
theorem JudgedInv.written (hinv : JudgedInv wilsonBound gate state)
    (hposition : state.registry.calls[position]? = some operation)
    {version : ModelVersion F Bundle} (hwritten : operation.written = some version)
    (hcandidate : version.state ≠ .candidate) (hrejected : version.state ≠ .rejected) :
    Passed wilsonBound gate state.registry.store version.evidence
      (operation.judge state.judged version.modelId) := by
  have hcall := hinv.registry.call hposition
  cases operation <;> cases hwritten
  case registerWrite.refl =>
    exact absurd hcall.2.1 hcandidate
  case attachWrite.refl against =>
    rcases hcall with ⟨_, -, -, -, -, hstate | hstate⟩
    · have hpassed := hinv.calls _ (List.mem_of_getElem? hposition) hstate
      rwa [Operation.judge, Function.update_self]
    · exact absurd hstate hrejected
  case promoteWrite.refl priorId =>
    have hpassed := hinv.passed _ _ hcall.1 nofun nofun
    exact hpassed
  case rollbackWrite.refl priorId =>
    rcases hcall with ⟨-, -, -, before, hrecord, hbefore⟩
    have hpassed := hinv.passed _ _ hrecord
    rcases hbefore with rfl | rfl <;> exact hpassed nofun nofun

theorem JudgedInv.advance (hinv : JudgedInv wilsonBound gate state)
    (hposition : state.registry.calls[position]? = some operation) :
    JudgedInv wilsonBound gate
      ⟨⟨(perform wilsonBound state.registry.store nowMs operation).1,
        replaceAt state.registry.calls position
          (perform wilsonBound state.registry.store nowMs operation).2.operation,
        state.registry.stopped, operation.named ++ state.registry.trail⟩,
        operation.judge state.judged⟩ where
  registry := hinv.registry.advance hposition
    (rfl : perform wilsonBound state.registry.store nowMs operation = (_, _))
  calls other hother := by
    rcases of_mem_replaceAt hother with hnew | hold
    · cases hperform : perform wilsonBound state.registry.store nowMs operation with
      | mk after progress =>
          rw [hperform] at hnew
          cases progress with
          | next following =>
              cases hnew
              exact hinv.following hposition hperform
          | done => cases hnew
          | failed error => cases hnew
    · exact (hinv.calls other hold).keeps (hinv.registry.keeps_perform hposition)
  passed modelId record hrecord hcandidate hrejected := by
    have hkeeps : state.registry.store.Keeps
        (perform wilsonBound state.registry.store nowMs operation).1 :=
      hinv.registry.keeps_perform hposition
    rcases stored_perform hrecord with ⟨hwritten, rfl⟩ | ⟨hstored, hne⟩
    · exact (hinv.written hposition hwritten hcandidate hrejected).keeps hkeeps
    · have hpassed := hinv.passed modelId record hstored hcandidate hrejected
      have hjudge : operation.judge state.judged modelId = state.judged modelId := judge_of_ne hne
      rw [← hjudge] at hpassed
      exact hpassed.keeps hkeeps

theorem JudgedInv.step (hinv : JudgedInv wilsonBound gate state)
    (hallowed : fixedGate gate state event)
    (hstep : (judgingMachine wilsonBound).step state event = some next) :
    JudgedInv wilsonBound gate next := by
  rcases Option.map_eq_some_iff.mp hstep with ⟨registry, hregistry, rfl⟩
  have hinvariant := hinv.registry.step hallowed.1 hregistry
  cases event with
  | start request =>
      cases hregistry
      refine ⟨hinvariant, fun operation hoperation ↦ ?_, hinv.passed⟩
      rcases List.mem_cons.mp hoperation with rfl | hold
      · cases request with
        | attachEvidence modelId evidence called => exact hallowed.2 _ rfl called rfl
        | registerCandidate version => trivial
        | promote modelId approved called => trivial
        | rollback => trivial
      · exact hinv.calls operation hold
  | advance position nowMs =>
      rcases Option.map_eq_some_iff.mp hregistry with ⟨operation, hposition, rfl⟩
      have hjudge : state.judge (.advance position nowMs) = operation.judge state.judged := by
        simp only [JudgedRun.judge, hposition, Option.elim_some]
      rw [hjudge]
      exact hinv.advance hposition
  | stop position =>
      rcases Option.map_eq_some_iff.mp hregistry with ⟨operation, hposition, rfl⟩
      exact ⟨hinvariant, fun other hother ↦ hinv.calls other (List.mem_of_mem_eraseIdx hother),
        hinv.passed⟩

theorem judgedInv_of_reachable
    (reached : (judgingMachine wilsonBound).Reachable (fixedGate gate) state) :
    JudgedInv wilsonBound gate state := by
  have hinit : JudgedInv wilsonBound gate (@judgingMachine F Bundle _ _ _ wilsonBound).init := by
    constructor
    · exact @registryInv_init F Bundle _ _ _ wilsonBound
    · intro _ hoperation
      cases hoperation
    · intro _ _ hrecord
      cases hrecord
  exact reached.invariant hinit fun _ _ _ hinv hallowed hstep ↦ hinv.step hallowed hstep

/-- A promotion makes a version active that passed the gate, and that is not worse than the version
it was judged against. -/
theorem promotions_judged
    (reached : (judgingMachine wilsonBound).Reachable (fixedGate gate) state)
    {modelId : String} {priorId : Option String}
    (hposition : state.registry.calls[position]? = some (.promotePointers modelId priorId))
    (hstep : (judgingMachine wilsonBound).step state (.advance position nowMs) = some next) :
    next.registry.store.active = some modelId ∧
      ∃ record evidence, next.registry.store.models modelId = some record ∧
        record.evidence = some evidence ∧ gateReasons wilsonBound evidence gate = [] ∧
        (∀ judgedId, state.judged modelId = some judgedId → ∃ active activeEvidence,
          next.registry.store.models judgedId = some active ∧
            active.evidence = some activeEvidence ∧
              regressionReasons evidence activeEvidence gate = []) ∧
        ∀ activeId active activeEvidence, state.registry.store.active = some activeId →
          state.registry.store.models activeId = some active →
          active.evidence = some activeEvidence →
            evidence.aggregate.falseMergeCount ≤ activeEvidence.aggregate.falseMergeCount ∧
              (state.judged modelId = some activeId →
                regressionReasons evidence activeEvidence gate = []) := by
  have hinv := judgedInv_of_reachable reached
  rcases Option.map_eq_some_iff.mp hstep with ⟨registry, hregistry, rfl⟩
  rcases Option.map_eq_some_iff.mp hregistry with ⟨operation, hoperation, rfl⟩
  cases hposition.symm.trans hoperation
  rcases hinv.registry.call hposition with ⟨-, -, record, hrecord, hstate⟩
  rcases hinv.passed modelId record hrecord (by rw [hstate]; nofun) (by rw [hstate]; nofun) with
    ⟨evidence, hevidence, hgate, hagainst⟩
  refine ⟨rfl, record, evidence, hrecord, hevidence, hgate, hagainst, ?_⟩
  intro activeId active activeEvidence hactive hactiveRecord hactiveEvidence
  constructor
  · rw [falseMergeCount_of_gateReasons hgate]
    exact Nat.zero_le _
  · intro hjudged
    rcases hagainst activeId hjudged with ⟨judged, judgedEvidence, hmodel, hsome, hregression⟩
    cases hactiveRecord.symm.trans hmodel
    cases hactiveEvidence.symm.trans hsome
    exact hregression

end

/-! ## Promotions of two versions -/

instance {F Bundle : Type} [DecidableEq F] (gate : GateConfig F) (state : JudgedRun F Bundle)
    (event : RegistryEvent F Bundle) : Decidable (fixedGate gate state event) :=
  match event with
  | .start request => decidable_of_iff
      (oneWriter state.registry (.start request) ∧ ∀ called ∈ request.gate, called = gate)
      ⟨fun ⟨halone, hgate⟩ ↦ ⟨halone, fun _ heq ↦ by cases heq; exact hgate⟩,
        fun ⟨halone, hgate⟩ ↦ ⟨halone, hgate request rfl⟩⟩
  | .advance .. | .stop _ => isTrue ⟨trivial, nofun⟩

instance {F Bundle : Type} [DecidableEq F] (gate : GateConfig F) (state : RegistryState F Bundle)
    (event : RegistryEvent F Bundle) : Decidable (sequential gate state event) :=
  match event with
  | .start request => decidable_of_iff
      (state.calls.isEmpty ∧ ∀ called ∈ request.gate, called = gate)
      (and_congr_left' List.isEmpty_iff)
  | .advance .. => inferInstanceAs (Decidable True)
  | .stop _ => inferInstanceAs (Decidable False)

/-- The second version is judged against the first, which is then active, and replaces it. -/
theorem promotions_judged_second : ∃ state next : JudgedRun ℕ String,
    (judgingMachine fun _ _ _ _ ↦ 0).step state (.advance 0 0) = some next ∧
      next.registry.store.active = some "b" ∧
      ∃ record evidence, next.registry.store.models "b" = some record ∧
        record.evidence = some evidence ∧ gateReasons (fun _ _ _ _ ↦ 0) evidence zeroGate = [] ∧
        ∃ active activeEvidence, next.registry.store.models "a" = some active ∧
          active.evidence = some activeEvidence ∧
            regressionReasons evidence activeEvidence zeroGate = [] := by
  have hreplay : ∃ state, (judgingMachine fun _ _ _ _ ↦ 0).replay (fixedGate zeroGate)
      (judgingMachine fun _ _ _ _ ↦ 0).init (promoteTwo.take 30) = some state ∧
        state.registry.calls[0]? = some (.promotePointers "b" (some "a")) ∧
        state.judged "b" = some "a" ∧
        ∃ next, (judgingMachine fun _ _ _ _ ↦ 0).step state (.advance 0 0) = some next :=
    ⟨_, rfl, rfl, rfl, _, rfl⟩
  rcases hreplay with ⟨state, hstate, hposition, hjudged, next, hstep⟩
  rcases promotions_judged (Machine.reachableFrom_replay _ hstate) hposition hstep with
    ⟨hactive, record, evidence, hrecord, hevidence, hgate, hagainst, -⟩
  exact ⟨state, next, hstep, hactive, record, evidence, hrecord, hevidence, hgate,
    hagainst "a" hjudged⟩

/-- Two candidates enter the shadow lane before any version is active, and the better one is
promoted before the other. -/
def promoteBetterFirst : List (RegistryEvent ℕ String) :=
  Request.alone (.registerCandidate (registeredVersion "a")) 3 ++
  Request.alone (.attachEvidence "a" (accurateEvidence 1) zeroGate) 4 ++
  Request.alone (.registerCandidate (registeredVersion "b")) 3 ++
  Request.alone (.attachEvidence "b" (accurateEvidence 2) zeroGate) 4 ++
  Request.alone (.promote "b" true zeroGate) 5 ++
  Request.alone (.promote "a" true zeroGate) 4

theorem promotion_regresses : ∃ state next : RegistryState ℕ String,
    (registryMachine fun _ _ _ _ ↦ 0).Reachable (sequential zeroGate) state ∧
      state.calls[0]? = some (.promotePointers "a" (some "b")) ∧
      (registryMachine fun _ _ _ _ ↦ 0).step state (.advance 0 0) = some next ∧
      state.store.active = some "b" ∧ next.store.active = some "a" ∧
      ∃ active replaced evidence activeEvidence, next.store.models "a" = some active ∧
        active.evidence = some evidence ∧ next.store.models "b" = some replaced ∧
        replaced.evidence = some activeEvidence ∧
          regressionReasons evidence activeEvidence zeroGate ≠ [] := by
  have hreplay : ∃ state, (registryMachine fun _ _ _ _ ↦ 0).replay (sequential zeroGate)
      (registryMachine fun _ _ _ _ ↦ 0).init promoteBetterFirst = some state ∧
        state.calls[0]? = some (.promotePointers "a" (some "b")) ∧
        state.store.active = some "b" ∧
        ∃ next, (registryMachine fun _ _ _ _ ↦ 0).step state (.advance 0 0) = some next ∧
          next.store.active = some "a" ∧
          (next.store.models "a").map ModelVersion.evidence = some (some (accurateEvidence 1)) ∧
          (next.store.models "b").map ModelVersion.evidence = some (some (accurateEvidence 2)) :=
    ⟨_, rfl, rfl, rfl, _, rfl, rfl, rfl, rfl⟩
  rcases hreplay with ⟨state, hstate, hposition, hbefore, next, hstep, hactive, hfirst, hsecond⟩
  rcases Option.map_eq_some_iff.mp hfirst with ⟨first, hfirstRecord, hfirstEvidence⟩
  rcases Option.map_eq_some_iff.mp hsecond with ⟨second, hsecondRecord, hsecondEvidence⟩
  refine ⟨state, next, Machine.reachableFrom_replay _ hstate, hposition, hstep, hbefore, hactive,
    first, second, _, _, hfirstRecord, hfirstEvidence, hsecondRecord, hsecondEvidence, ?_⟩
  nofun

end Deblob.Models
