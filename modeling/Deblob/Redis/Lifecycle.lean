import Deblob.Redis.Evidence
import Deblob.Lib.Pending
import Deblob.Lib.TransitionSystem

/-!
# Ingests, rejects and promotions of the same candidates

Every call is a sequence of store operations, and the calls of any number of clients interleave
between them. What a call has read stays in its continuation, so an upsert writes the state it read
earlier, a publication may follow a reject, and the listing pipelines of two state changes may run
in either order.
-/

namespace Deblob.Redis

open Core Lib

/-- One observed document, clustered onto `target`. -/
structure Observation (Profile : Type) where
  target : CandidateId
  profile : Profile
  source : String
  nowMs : ℤ

structure PromotionPolicy where
  minSamples : ℕ
  minAgeMs : ℤ

/-- How profiles are merged, and when a candidate may be promoted. -/
structure LifecycleCfg (Profile : Type) where
  merge : Profile → Profile → Profile
  policy : PromotionPolicy

variable {Profile : Type}

def PromotionPolicy.check (policy : PromotionPolicy) (record : CandidateRecord Profile)
    (nowMs : ℤ) : Bool :=
  decide (policy.minSamples ≤ record.sampleCount) &&
    decide (policy.minAgeMs ≤ nowMs - record.firstSeenMs)

/-- The next store operation of a call in progress, with what the call has read so far. -/
inductive Operation (Profile : Type) where
  | ingest (observation : Observation Profile)
  | upsert (observation : Observation Profile) (existing : Option (CandidateRecord Profile))
  | reject (id : CandidateId)
  | promote (id : CandidateId)
  | publish (id : CandidateId)
  | setState (id : CandidateId) (target : CandidateState)
  | index (id : CandidateId) (target : CandidateState)

/-- The calls that arrive from outside. -/
inductive Request (Profile : Type) where
  | ingest (observation : Observation Profile)
  | reject (id : CandidateId)
  | promote (id : CandidateId)

def Request.operation : Request Profile → Operation Profile
  | ingest observation => .ingest observation
  | reject id => .reject id
  | promote id => .promote id

/-- The state an ingest writes: the one it read, `provisional` for a new candidate. -/
def writtenState (existing : Option (CandidateRecord Profile)) : CandidateState :=
  (existing.map CandidateRecord.state).getD .provisional

/-- The record an ingest writes back. -/
def mergedRecord (cfg : LifecycleCfg Profile) (observation : Observation Profile)
    (existing : Option (CandidateRecord Profile)) : CandidateRecord Profile where
  candidateId := observation.target
  profile := match existing with
    | some record => cfg.merge record.profile observation.profile
    | none => observation.profile
  sampleCount := (existing.map CandidateRecord.sampleCount).getD 0 + 1
  firstSeenMs := (existing.map CandidateRecord.firstSeenMs).getD observation.nowMs
  lastSeenMs := observation.nowMs
  state := writtenState existing
  source := some observation.source

/-- A publication: the candidate, and the state it had when the publication executed. -/
structure Publication where
  candidate : CandidateId
  state : Option CandidateState

structure LifecycleState (Profile : Type) where
  store : EvidenceStore Profile
  operations : List (Operation Profile)
  publications : List Publication

/-- Perform one store operation. `granted` is the answer of the rate limiter or the registry. -/
def perform (cfg : LifecycleCfg Profile) (store : EvidenceStore Profile) (nowMs : ℤ)
    (granted : Bool) : Operation Profile →
      EvidenceStore Profile × Option (Operation Profile) × List Publication
  | .ingest observation =>
    match getCandidate store observation.target with
    | some record => (store, some (.upsert observation (some record)), [])
    | none => (store, if granted then some (.upsert observation none) else none, [])
  | .upsert observation existing =>
    (upsertCandidate store (mergedRecord cfg observation existing), none, [])
  | .reject id =>
    (store, (getCandidate store id).map fun _ ↦ .setState id .rejected, [])
  | .promote id =>
    match getCandidate store id with
    | some record =>
      (store, if record.state = .provisional && cfg.policy.check record nowMs then
        some (.publish id) else none, [])
    | none => (store, none, [])
  | .publish id =>
    if granted then (store, some (.setState id .staged), [⟨id, stateOf store id⟩])
    else (store, none, [])
  | .setState id target =>
    match setStateScript store id target with
    | .ok next => (next, some (.index id target), [])
    | .error _ => (store, none, [])
  | .index id target => (indexState store id target, none, [])

inductive LifecycleEvent (Profile : Type) where
  | start (request : Request Profile)
  | advance (position : ℕ) (nowMs : ℤ) (granted : Bool)

/-- Replace an operation by what its call does next. -/
def advance (cfg : LifecycleCfg Profile) (state : LifecycleState Profile) (position : ℕ)
    (nowMs : ℤ) (granted : Bool) (operation : Operation Profile) : LifecycleState Profile :=
  let (store, next, publications) := perform cfg state.store nowMs granted operation
  ⟨store, replaceAt state.operations position next, state.publications ++ publications⟩

def lifecycleMachine (cfg : LifecycleCfg Profile) :
    Machine (LifecycleState Profile) (LifecycleEvent Profile) where
  init := ⟨.empty, [], []⟩
  step state
    | .start request => some { state with operations := request.operation :: state.operations }
    | .advance position nowMs granted =>
      (state.operations[position]?).map (advance cfg state position nowMs granted)

/-- Whether an operation is the listing pipeline of a change to `target`. -/
def Operation.lists (id : CandidateId) (target : CandidateState) : Operation Profile → Bool
  | .index other state => other == id && state == target
  | _ => false

/-- What an operation must find for the lifecycle to stay monotone: an upsert writes the state the
candidate has, a publication finds it not rejected, and a listing pipeline either is about the
present state or leaves one that is. -/
def undisturbed (store : EvidenceStore Profile) (others : List (Operation Profile))
    (granted : Bool) : Operation Profile → Prop
  | .upsert observation existing =>
    ∀ current ∈ stateOf store observation.target, current = writtenState existing
  | .publish id => granted = true → stateOf store id ≠ some .rejected
  | .index id target =>
    ∀ current ∈ stateOf store id, current = target ∨ others.any (·.lists id current) = true
  | .ingest _ | .reject _ | .promote _ | .setState .. => True

instance (store : EvidenceStore Profile) (others : List (Operation Profile)) (granted : Bool)
    (operation : Operation Profile) : Decidable (undisturbed store others granted operation) :=
  match operation with
  | .upsert observation existing => inferInstanceAs (Decidable
      (∀ current ∈ stateOf store observation.target, current = writtenState existing))
  | .publish id => inferInstanceAs (Decidable (granted = true → stateOf store id ≠ some .rejected))
  | .index id target => inferInstanceAs (Decidable (∀ current ∈ stateOf store id,
      current = target ∨ others.any (·.lists id current) = true))
  | .ingest _ | .reject _ | .promote _ | .setState .. => inferInstanceAs (Decidable True)

def staysUndisturbed (state : LifecycleState Profile) : LifecycleEvent Profile → Prop
  | .start _ => True
  | .advance position _ granted => ∀ operation ∈ state.operations[position]?,
      undisturbed state.store (state.operations.eraseIdx position) granted operation

instance (state : LifecycleState Profile) (event : LifecycleEvent Profile) :
    Decidable (staysUndisturbed state event) :=
  match event with
  | .start _ => inferInstanceAs (Decidable True)
  | .advance position _ granted => inferInstanceAs (Decidable
      (∀ operation ∈ state.operations[position]?,
        undisturbed state.store (state.operations.eraseIdx position) granted operation))

/-- The listings agree with the hashes, except where a pipeline for the present state is due. -/
structure LifecycleInv (state : LifecycleState Profile) : Prop where
  absent : ∀ id, stateOf state.store id = none → ∀ listing, id ∉ state.store.listed listing
  listed : ∀ id current, stateOf state.store id = some current →
    (∀ listing, id ∈ state.store.listed listing ↔ listing = current) ∨
      ∃ operation ∈ state.operations, operation.lists id current = true
  pending : ∀ id target, ∀ operation ∈ state.operations, operation.lists id target = true →
    (stateOf state.store id).isSome
  targets : ∀ id, .setState id .provisional ∉ state.operations
  published : ∀ publication ∈ state.publications, publication.state ≠ some .rejected

/-- A change of state that nothing forbids: `rejected` is kept, `staged` is not taken back. -/
def Monotone (before after : Option CandidateState) : Prop :=
  (before = some .rejected → after = some .rejected) ∧
    (before = some .staged → after = some .staged ∨ after = some .rejected)

theorem Monotone.refl (state : Option CandidateState) : Monotone state state :=
  ⟨id, .inl⟩

theorem Monotone.trans {first second third : Option CandidateState}
    (hfirst : Monotone first second) (hsecond : Monotone second third) :
    Monotone first third := by
  refine ⟨fun hrejected ↦ hsecond.1 (hfirst.1 hrejected), fun hstaged ↦ ?_⟩
  rcases hfirst.2 hstaged with hstill | hrejected
  · exact hsecond.2 hstill
  · exact .inr (hsecond.1 hrejected)

section

variable {cfg : LifecycleCfg Profile} {state : LifecycleState Profile} {position : ℕ}
  {operation : Operation Profile}

/-- A step that leaves the store alone only replaces an operation that is not a pipeline. -/
theorem LifecycleInv.of_same_store (hinv : LifecycleInv state)
    (hposition : state.operations[position]? = some operation)
    (hplain : ∀ id target, operation.lists id target = false) {next : Option (Operation Profile)}
    (hnext : ∀ other ∈ next, (∀ id target, other.lists id target = false) ∧
      ∀ id, other ≠ .setState id .provisional)
    {publications : List Publication}
    (hpublished : ∀ publication ∈ publications, publication.state ≠ some .rejected) :
    LifecycleInv ⟨state.store, next.toList ++ state.operations.eraseIdx position,
      state.publications ++ publications⟩ where
  absent := hinv.absent
  listed id current hcurrent := by
    refine (hinv.listed id current hcurrent).imp_right ?_
    rintro ⟨other, hmem, hlists⟩
    refine ⟨other, List.mem_append_right _ ?_, hlists⟩
    refine ((mem_pending hposition other).mp hmem).resolve_left ?_
    rintro rfl
    simp [hplain] at hlists
  pending id target other hmem hlists := by
    rcases List.mem_append.mp hmem with hnew | hold
    · simp [(hnext other (Option.mem_toList.mp hnew)).1] at hlists
    · exact hinv.pending id target other (List.mem_of_mem_eraseIdx hold) hlists
  targets id hmem := by
    rcases List.mem_append.mp hmem with hnew | hold
    · exact (hnext _ (Option.mem_toList.mp hnew)).2 id rfl
    · exact hinv.targets id (List.mem_of_mem_eraseIdx hold)
  published publication hmem :=
    (List.mem_append.mp hmem).elim (hinv.published publication) (hpublished publication)

/-- An upsert that writes the present state lists the candidate where it belongs. -/
theorem LifecycleInv.upsert (hinv : LifecycleInv state) {observation : Observation Profile}
    {existing : Option (CandidateRecord Profile)}
    (hposition : state.operations[position]? = some (.upsert observation existing))
    (hpresent : ∀ current ∈ stateOf state.store observation.target,
      current = writtenState existing) :
    LifecycleInv ⟨upsertCandidate state.store (mergedRecord cfg observation existing),
      state.operations.eraseIdx position, state.publications⟩ where
  absent id hnone listing hmem := by
    rw [stateOf_upsertCandidate] at hnone
    split_ifs at hnone with htarget
    rcases (mem_upsertCandidate _).mp hmem with ⟨-, heq⟩ | hold
    · exact htarget heq
    · exact hinv.absent id hnone listing hold
  listed id current hcurrent := by
    have hothers (hpending : ∃ other ∈ state.operations, other.lists id current = true) :
        ∃ other ∈ state.operations.eraseIdx position, other.lists id current = true := by
      obtain ⟨other, hmem, hlists⟩ := hpending
      refine ⟨other, ((mem_pending hposition other).mp hmem).resolve_left ?_, hlists⟩
      rintro rfl
      simp [Operation.lists] at hlists
    simp only [mem_upsertCandidate]
    rw [stateOf_upsertCandidate] at hcurrent
    split_ifs at hcurrent with htarget
    · cases hcurrent
      subst htarget
      cases hbefore : stateOf state.store (mergedRecord cfg observation existing).candidateId with
      | none =>
          left
          intro listing
          simp [hinv.absent _ hbefore listing]
      | some before =>
          have hsame : before = (mergedRecord cfg observation existing).state :=
            hpresent before hbefore
          subst hsame
          rcases hinv.listed _ _ hbefore with hlisted | hpending
          · left
            intro listing
            simp [hlisted listing]
          · exact .inr (hothers hpending)
    · rcases hinv.listed id current hcurrent with hlisted | hpending
      · left
        intro listing
        simp [hlisted listing, htarget]
      · exact .inr (hothers hpending)
  pending id target other hmem hlists := by
    rw [stateOf_upsertCandidate]
    split_ifs
    · rfl
    · exact hinv.pending id target other (List.mem_of_mem_eraseIdx hmem) hlists
  targets id hmem := hinv.targets id (List.mem_of_mem_eraseIdx hmem)
  published := hinv.published

/-- A state change leaves a pipeline for the new state behind. -/
theorem LifecycleInv.setState (hinv : LifecycleInv state) {id : CandidateId}
    {target : CandidateState} {next : EvidenceStore Profile}
    (hposition : state.operations[position]? = some (.setState id target))
    (hok : setStateScript state.store id target = .ok next) :
    LifecycleInv ⟨next, .index id target :: state.operations.eraseIdx position,
      state.publications⟩ := by
  obtain ⟨hlisted, hexists, -, hstates⟩ := setStateScript_ok hok
  refine ⟨fun other hnone ↦ ?_, fun other current hcurrent ↦ ?_,
    fun other listing operation hmem hlists ↦ ?_, fun other hmem ↦ ?_, hinv.published⟩
  · rw [hstates] at hnone
    split_ifs at hnone
    rw [hlisted]
    exact hinv.absent other hnone
  · rw [hstates] at hcurrent
    split_ifs at hcurrent with hother
    · cases hcurrent
      subst hother
      exact .inr ⟨_, List.mem_cons_self, by simp [Operation.lists]⟩
    · rw [hlisted]
      refine (hinv.listed other current hcurrent).imp_right ?_
      rintro ⟨operation, hmem, hlists⟩
      refine ⟨operation, List.mem_cons_of_mem _ ?_, hlists⟩
      refine ((mem_pending hposition operation).mp hmem).resolve_left ?_
      rintro rfl
      simp [Operation.lists] at hlists
  · rw [hstates]
    split_ifs with hother
    · rfl
    · rcases List.mem_cons.mp hmem with rfl | hold
      · simp only [Operation.lists, Bool.and_eq_true, beq_iff_eq] at hlists
        exact absurd hlists.1.symm hother
      · exact hinv.pending other listing operation (List.mem_of_mem_eraseIdx hold) hlists
  · rcases List.mem_cons.mp hmem with heq | hold
    · cases heq
    · exact hinv.targets other (List.mem_of_mem_eraseIdx hold)

/-- A pipeline for the present state, or one that leaves such a pipeline behind. -/
theorem LifecycleInv.index (hinv : LifecycleInv state) {id : CandidateId}
    {target : CandidateState}
    (hposition : state.operations[position]? = some (.index id target))
    (hpresent : ∀ current ∈ stateOf state.store id, current = target ∨
      (state.operations.eraseIdx position).any (·.lists id current) = true) :
    LifecycleInv ⟨indexState state.store id target, state.operations.eraseIdx position,
      state.publications⟩ where
  absent other hnone listing := by
    rw [stateOf_indexState] at hnone
    rw [mem_indexState]
    split_ifs with hother
    · subst hother
      have hsome := hinv.pending other target (.index other target)
        ((mem_pending hposition _).mpr (.inl rfl)) (by simp [Operation.lists])
      simp [hnone] at hsome
    · exact hinv.absent other hnone listing
  listed other current hcurrent := by
    rw [stateOf_indexState] at hcurrent
    by_cases hother : other = id
    · subst hother
      rcases hpresent current hcurrent with rfl | hpending
      · left
        simp
      · right
        simpa using hpending
    · refine (hinv.listed other current hcurrent).imp (fun hlisted listing ↦ ?_) ?_
      · rw [mem_indexState, if_neg hother, hlisted]
      · rintro ⟨operation, hmem, hlists⟩
        refine ⟨operation, ((mem_pending hposition operation).mp hmem).resolve_left ?_, hlists⟩
        rintro rfl
        simp only [Operation.lists, Bool.and_eq_true, beq_iff_eq] at hlists
        exact hother hlists.1.symm
  pending other listing operation hmem hlists :=
    hinv.pending other listing operation (List.mem_of_mem_eraseIdx hmem) hlists
  targets other hmem := hinv.targets other (List.mem_of_mem_eraseIdx hmem)
  published := hinv.published

theorem LifecycleInv.advance (hinv : LifecycleInv state) {nowMs : ℤ} {granted : Bool}
    (hposition : state.operations[position]? = some operation)
    (hundisturbed : undisturbed state.store (state.operations.eraseIdx position) granted
      operation) :
    LifecycleInv (advance cfg state position nowMs granted operation) := by
  have hkeep (next : Option (Operation Profile))
      (hplain : ∀ id target, operation.lists id target = false)
      (hnext : ∀ other ∈ next, (∀ id target, other.lists id target = false) ∧
        ∀ id, other ≠ .setState id .provisional) :
      LifecycleInv ⟨state.store, next.toList ++ state.operations.eraseIdx position,
        state.publications ++ []⟩ :=
    hinv.of_same_store hposition hplain hnext (by simp)
  cases operation with
  | ingest observation =>
      simp only [Redis.advance, perform]
      split
      · exact hkeep _ (fun _ _ ↦ rfl) (by simp [Operation.lists])
      · refine hkeep _ (fun _ _ ↦ rfl) ?_
        split <;> simp [Operation.lists]
  | upsert observation existing =>
      simpa [Redis.advance, perform, replaceAt] using hinv.upsert hposition hundisturbed
  | reject id =>
      refine hkeep _ (fun _ _ ↦ rfl) ?_
      intro other hother
      obtain ⟨record, -, rfl⟩ := Option.map_eq_some_iff.mp hother
      simp [Operation.lists]
  | promote id =>
      simp only [Redis.advance, perform]
      split
      · refine hkeep _ (fun _ _ ↦ rfl) ?_
        split <;> simp [Operation.lists]
      · exact hkeep none (fun _ _ ↦ rfl) (by simp)
  | publish id =>
      simp only [Redis.advance, perform]
      split
      · rename_i hgranted
        refine hinv.of_same_store hposition (fun _ _ ↦ rfl) (by simp [Operation.lists]) ?_
        simpa using hundisturbed hgranted
      · exact hkeep none (fun _ _ ↦ rfl) (by simp)
  | setState id target =>
      simp only [Redis.advance, perform]
      split
      · rename_i next hok
        simpa [replaceAt] using hinv.setState hposition hok
      · exact hkeep none (fun _ _ ↦ rfl) (by simp)
  | index id target =>
      simpa [Redis.advance, perform, replaceAt] using hinv.index hposition hundisturbed

theorem LifecycleInv.start (hinv : LifecycleInv state) (request : Request Profile) :
    LifecycleInv { state with operations := request.operation :: state.operations } where
  absent := hinv.absent
  listed id current hcurrent := by
    refine (hinv.listed id current hcurrent).imp_right ?_
    rintro ⟨other, hmem, hlists⟩
    exact ⟨other, List.mem_cons_of_mem _ hmem, hlists⟩
  pending id target other hmem hlists := by
    rcases List.mem_cons.mp hmem with rfl | hold
    · cases request <;> simp [Request.operation, Operation.lists] at hlists
    · exact hinv.pending id target other hold hlists
  targets id hmem := by
    rcases List.mem_cons.mp hmem with heq | hold
    · cases request <;> cases heq
    · exact hinv.targets id hold
  published := hinv.published

/-- One undisturbed operation changes no state but monotonically. -/
theorem LifecycleInv.monotone (hinv : LifecycleInv state) {nowMs : ℤ} {granted : Bool}
    (hposition : state.operations[position]? = some operation)
    (hundisturbed : undisturbed state.store (state.operations.eraseIdx position) granted operation)
    (id : CandidateId) :
    Monotone (stateOf state.store id)
      (stateOf (Redis.advance cfg state position nowMs granted operation).store id) := by
  cases operation with
  | upsert observation existing =>
      have hpresent : ∀ current ∈ stateOf state.store observation.target,
        current = writtenState existing := hundisturbed
      simp only [Redis.advance, perform, stateOf_upsertCandidate, mergedRecord]
      split_ifs with htarget
      · subst htarget
        cases hbefore : stateOf state.store observation.target with
        | none => simp [Monotone]
        | some before =>
            rw [hpresent before hbefore]
            exact .refl _
      · exact .refl _
  | setState other target =>
      simp only [Redis.advance, perform]
      split
      · rename_i next hok
        obtain ⟨-, -, hrejected, hstates⟩ := setStateScript_ok hok
        have htarget : target ≠ .provisional := by
          rintro rfl
          exact hinv.targets other ((mem_pending hposition _).mpr (.inl rfl))
        rw [hstates]
        split_ifs with hid
        · subst hid
          refine ⟨fun h ↦ absurd h hrejected, fun _ ↦ ?_⟩
          cases target <;> simp_all
        · exact .refl _
      · exact .refl _
  | ingest observation =>
      simp only [Redis.advance, perform]
      split <;> exact .refl _
  | promote other =>
      simp only [Redis.advance, perform]
      split <;> exact .refl _
  | publish other =>
      simp only [Redis.advance, perform]
      split <;> exact .refl _
  | reject other => exact .refl _
  | index other target => exact .refl _

theorem lifecycleInv_step {event : LifecycleEvent Profile} {next : LifecycleState Profile}
    (hinv : LifecycleInv state) (hguard : staysUndisturbed state event)
    (hstep : (lifecycleMachine cfg).step state event = some next) :
    LifecycleInv next ∧ ∀ id, Monotone (stateOf state.store id) (stateOf next.store id) := by
  cases event with
  | start request =>
      cases hstep
      exact ⟨hinv.start request, fun _ ↦ .refl _⟩
  | advance position nowMs granted =>
      obtain ⟨operation, hposition, rfl⟩ := Option.map_eq_some_iff.mp hstep
      have hundisturbed := hguard operation hposition
      exact ⟨hinv.advance hposition hundisturbed, hinv.monotone hposition hundisturbed⟩

theorem lifecycleInv_reachable (reached : (lifecycleMachine cfg).Reachable staysUndisturbed state) :
    LifecycleInv state := by
  refine reached.invariant ?_ fun _ _ _ hinv hguard hstep ↦
    (lifecycleInv_step hinv hguard hstep).1
  constructor <;> simp [lifecycleMachine, stateOf, EvidenceStore.empty]

theorem monotone_reachable {later : LifecycleState Profile}
    (reached : (lifecycleMachine cfg).Reachable staysUndisturbed state)
    (hlater : (lifecycleMachine cfg).ReachableFrom staysUndisturbed state later)
    (id : CandidateId) : Monotone (stateOf state.store id) (stateOf later.store id) := by
  have hboth : LifecycleInv later ∧ Monotone (stateOf state.store id) (stateOf later.store id) := by
    induction hlater with
    | refl => exact ⟨lifecycleInv_reachable reached, .refl _⟩
    | step _ hguard hstep ih =>
        obtain ⟨hnext, hstates⟩ := lifecycleInv_step ih.1 hguard hstep
        exact ⟨hnext, ih.2.trans (hstates id)⟩
  exact hboth.2

/-- With no call in progress, every candidate is listed under its state and nowhere else. -/
theorem LifecycleInv.quiescent (hinv : LifecycleInv state) (hquiet : state.operations = [])
    {id : CandidateId} {current : CandidateState} (hcurrent : stateOf state.store id = some current)
    (listing : CandidateState) : id ∈ state.store.listed listing ↔ listing = current := by
  rcases hinv.listed id current hcurrent with hlisted | ⟨operation, hmem, -⟩
  · exact hlisted listing
  · simp [hquiet] at hmem

/-- What a page of one listing returns is in that state. -/
theorem LifecycleInv.listCandidates_state (hinv : LifecycleInv state)
    (hquiet : state.operations = []) {listing : CandidateState} {page : List CandidateId}
    (hpage : ∀ id ∈ page, id ∈ state.store.listed listing) :
    ∀ record ∈ listCandidates state.store page, record.state = listing := by
  intro record hrecord
  obtain ⟨id, hid, hget⟩ := List.mem_filterMap.mp hrecord
  obtain ⟨hash, hhash, rfl⟩ := Option.map_eq_some_iff.mp hget
  have hcurrent : stateOf state.store id = some hash.state := by simp [stateOf, hhash]
  exact ((hinv.quiescent hquiet hcurrent listing).mp (hpage id hid)).symm

end

/-- Profiles without content and a policy that lets every candidate pass, for fixed runs. -/
def unitCfg : LifecycleCfg Unit := ⟨fun _ _ ↦ (), ⟨0, 0⟩⟩

def sampleObservation : Observation Unit := ⟨.fromDigest (.replicate 32 0), (), "raw", 0⟩

end Deblob.Redis
