import Deblob.Redis.Lifecycle
import Mathlib.Data.Finset.Card
import Mathlib.Tactic.IntervalCases

/-!
# Rebuilding the listings while candidates live on

`rebuild_candidate_index` drops the three listings and restores them from the hashes, one command
at a time, between the commands of the calls in progress, the expiry of hashes and the repairs that
`list_candidates` makes. A scan promises only the keys that live from its start to its end, in any
number of replies and any number of times. The invariant says, for every live candidate, who still
owes it its place: nobody, a listing pipeline, or the rebuild.
-/

namespace Deblob.Redis

open Core Lib

variable {Profile : Type}

/-! ## The commands of a rebuild -/

/-- What is left of a rebuild. `owed` holds the keys that lived throughout the scan so far and that
no reply had. -/
inductive RebuildStage where
  | dropping (left : List CandidateState)
  | scanning (owed : Set CandidateId)
  | reading (keys : List CandidateId) (owed : Set CandidateId) (last : Bool)
  | adding (id : CandidateId) (state : CandidateState) (keys : List CandidateId)
      (owed : Set CandidateId) (last : Bool)
  | finished

/-- One reply to `SCAN`: its keys, and whether its cursor is `0`. -/
structure ScanReply where
  keys : List CandidateId
  last : Bool

def dropListing (store : EvidenceStore Profile) (state : CandidateState) : EvidenceStore Profile :=
  { store with listed := Function.update store.listed state ∅ }

def expireCandidate (store : EvidenceStore Profile) (id : CandidateId) : EvidenceStore Profile :=
  { store with candidates := Function.update store.candidates id none }

/-- The candidates whose hash is there. -/
def liveCandidates (store : EvidenceStore Profile) : Set CandidateId :=
  {id | (stateOf store id).isSome}

/-- One command of the rebuild, and how many hashes it reindexed. -/
def rebuildCandidateStep (store : EvidenceStore Profile) (reply : ScanReply) :
    RebuildStage → Option (EvidenceStore Profile × RebuildStage × ℕ)
  | .dropping [] => some (store, .scanning (liveCandidates store), 0)
  | .dropping (state :: left) => some (dropListing store state, .dropping left, 0)
  | .scanning owed =>
    some (store, .reading reply.keys (owed \ {id | id ∈ reply.keys}) reply.last, 0)
  | .reading [] owed last => some (store, if last then .finished else .scanning owed, 0)
  | .reading (id :: keys) owed last =>
    match stateOf store id with
    | some state => some (store, .adding id state keys owed last, 0)
    | none => some (store, .reading keys owed last, 0)
  | .adding id state keys owed last =>
    some ({ store with listed := store.listed.sadd state id }, .reading keys owed last, 1)
  | .finished => none

/-- A scan owes nothing for a key that did not live throughout. -/
def RebuildStage.forget (id : CandidateId) : RebuildStage → RebuildStage
  | .scanning owed => .scanning (owed \ {id})
  | .reading keys owed last => .reading keys (owed \ {id}) last
  | .adding other state keys owed last => .adding other state keys (owed \ {id}) last
  | stage => stage

/-! ## The rebuild among the other calls -/

/-- The calls in progress, the members that `list_candidates` found without a hash and has yet to
remove, and the rebuild with the number it will return. -/
structure ListingState (Profile : Type) where
  lifecycle : LifecycleState Profile
  repairs : List (CandidateState × CandidateId)
  stage : RebuildStage
  count : ℕ

inductive ListingEvent (Profile : Type) where
  | call (event : LifecycleEvent Profile)
  | expire (id : CandidateId)
  | missing (listing : CandidateState) (id : CandidateId)
  | repair (position : ℕ)
  | rebuild (reply : ScanReply)

def ListingState.withStore (state : ListingState Profile) (store : EvidenceStore Profile) :
    ListingState Profile :=
  { state with lifecycle := { state.lifecycle with store := store } }

def listingMachine (cfg : LifecycleCfg Profile) :
    Machine (ListingState Profile) (ListingEvent Profile) where
  init := ⟨(lifecycleMachine cfg).init, [], .finished, 0⟩
  step state
    | .call event =>
      ((lifecycleMachine cfg).step state.lifecycle event).map fun next ↦
        { state with lifecycle := next }
    | .expire id =>
      some { state.withStore (expireCandidate state.lifecycle.store id) with
        stage := state.stage.forget id }
    | .missing listing id =>
      if (stateOf state.lifecycle.store id).isNone then
        some { state with repairs := (listing, id) :: state.repairs }
      else none
    | .repair position =>
      (state.repairs[position]?).map fun repair ↦
        { state.withStore { state.lifecycle.store with
            listed := state.lifecycle.store.listed.srem repair.1 repair.2 } with
          repairs := state.repairs.eraseIdx position }
    | .rebuild reply =>
      (rebuildCandidateStep state.lifecycle.store reply state.stage).map fun next ↦
        { state.withStore next.1 with stage := next.2.1, count := state.count + next.2.2 }

/-- What `SCAN` promises: its last reply leaves nothing owed. -/
def RebuildStage.scansAll (reply : ScanReply) : RebuildStage → Prop
  | .scanning owed => reply.last = true → ∀ id ∈ owed, id ∈ reply.keys
  | _ => True

/-- No step takes a live candidate out of the listing of its state: a listing pipeline is about the
present state or leaves one that is, and a repair finds the candidate not back in that state. -/
def keepsListed (state : ListingState Profile) : ListingEvent Profile → Prop
  | .call (.advance position _ _) => ∀ id target, ∀ current ∈ stateOf state.lifecycle.store id,
      state.lifecycle.operations[position]? = some (.index id target) → current = target ∨
        (state.lifecycle.operations.eraseIdx position).any (·.lists id current) = true
  | .repair position => ∀ repair ∈ state.repairs[position]?,
      stateOf state.lifecycle.store repair.2 ≠ some repair.1
  | .rebuild reply => state.stage.scansAll reply
  | _ => True

/-- Whether a pipeline for the listing of `current` is due. -/
def LifecycleState.Pending (state : LifecycleState Profile) (id : CandidateId)
    (current : CandidateState) : Prop :=
  ∃ operation ∈ state.operations, operation.lists id current = true

/-- No step lists a candidate under a state it does not have: an upsert writes the present state,
and a candidate that expired comes back in the state it was last listed under; the rebuild adds a
candidate whose state is still the one it read, or for which a pipeline is due. -/
def listsPresent (state : ListingState Profile) : ListingEvent Profile → Prop
  | .call (.advance position _ _) => ∀ observation existing,
      state.lifecycle.operations[position]? = some (.upsert observation existing) →
        (∀ current ∈ stateOf state.lifecycle.store observation.target,
          current = writtenState existing) ∧
        (stateOf state.lifecycle.store observation.target = none → ∀ listing,
          observation.target ∈ state.lifecycle.store.listed listing →
            listing = writtenState existing)
  | .rebuild _ => ∀ id found keys owed last, state.stage = .adding id found keys owed last →
      ∀ current ∈ stateOf state.lifecycle.store id,
        current = found ∨ state.lifecycle.Pending id current
  | _ => True

/-! ## What is owed to a candidate -/

/-- Every live candidate is listed under its state, or a pipeline for it or `due` is left. -/
def Covered (due : CandidateId → CandidateState → Prop) (state : LifecycleState Profile) : Prop :=
  ∀ id current, stateOf state.store id = some current →
    id ∈ state.store.listed current ∨ state.Pending id current ∨ due id current

/-- No live candidate is listed elsewhere, but for one with a pipeline due and for listings that
will be dropped. -/
def Confined (dropped : CandidateState → Prop) (state : LifecycleState Profile) : Prop :=
  ∀ id current, stateOf state.store id = some current → ∀ listing,
    id ∈ state.store.listed listing → listing = current ∨ state.Pending id current ∨ dropped listing

/-- Whether the rebuild is still going to list the candidate. -/
def RebuildStage.due (id : CandidateId) (current : CandidateState) : RebuildStage → Prop
  | .dropping _ => True
  | .scanning owed => id ∈ owed
  | .reading keys owed _ => id ∈ keys ∨ id ∈ owed
  | .adding other found keys owed _ => (other = id ∧ found = current) ∨ id ∈ keys ∨ id ∈ owed
  | .finished => False

/-- Whether the rebuild is still going to drop the listing. -/
def RebuildStage.drops (listing : CandidateState) : RebuildStage → Prop
  | .dropping left => listing ∈ left
  | _ => False

/-- After the last reply nothing is owed. -/
def RebuildStage.Paid : RebuildStage → Prop
  | .reading _ owed last | .adding _ _ _ owed last => last = true → owed = ∅
  | _ => True

section

variable {cfg : LifecycleCfg Profile} {state next : LifecycleState Profile}
  {due : CandidateId → CandidateState → Prop} {dropped : CandidateState → Prop}

/-- A pipeline that is not the operation taken is still due after it. -/
theorem LifecycleState.Pending.replace {position : ℕ} {operation : Operation Profile}
    {id : CandidateId} {current : CandidateState} {store : EvidenceStore Profile}
    {rest : Option (Operation Profile)} {publications : List Publication}
    (hpending : state.Pending id current) (hposition : state.operations[position]? = some operation)
    (hother : operation.lists id current = false) :
    LifecycleState.Pending ⟨store, replaceAt state.operations position rest, publications⟩
      id current := by
  rcases hpending with ⟨listing, hmem, hlists⟩
  refine ⟨listing, mem_replaceAt.mpr (.inr ?_), hlists⟩
  rcases (mem_pending hposition listing).mp hmem with rfl | hrest
  · simp [hother] at hlists
  · exact hrest

/-- A step of a call leaves every live candidate covered, whoever else owes it a place. -/
theorem Covered.advance {position : ℕ} {operation : Operation Profile} {nowMs : ℤ} {granted : Bool}
    (hcovered : Covered due state) (hposition : state.operations[position]? = some operation)
    (hkeeps : ∀ id target, ∀ current ∈ stateOf state.store id, operation = .index id target →
      current = target ∨ (state.operations.eraseIdx position).any (·.lists id current) = true) :
    Covered due (Redis.advance cfg state position nowMs granted operation) := by
  have hsame (rest : Option (Operation Profile)) (publications : List Publication)
      (hplain : ∀ id target, operation.lists id target = false) :
      Covered due ⟨state.store, replaceAt state.operations position rest, publications⟩ :=
    fun id current hcurrent ↦ (hcovered id current hcurrent).imp_right
      (.imp_left fun hpending ↦ hpending.replace hposition (hplain id current))
  cases operation with
  | ingest observation =>
      simp only [Redis.advance, perform]
      split <;> exact hsame _ _ fun _ _ ↦ rfl
  | reject id => exact hsame _ _ fun _ _ ↦ rfl
  | promote id =>
      simp only [Redis.advance, perform]
      split <;> exact hsame _ _ fun _ _ ↦ rfl
  | publish id =>
      simp only [Redis.advance, perform]
      split <;> exact hsame _ _ fun _ _ ↦ rfl
  | upsert observation existing =>
      intro id current hcurrent
      simp only [Redis.advance, perform, stateOf_upsertCandidate] at hcurrent
      simp only [Redis.advance, perform, mem_upsertCandidate]
      split_ifs at hcurrent with htarget
      · cases hcurrent
        exact .inl (.inl ⟨rfl, htarget⟩)
      · rcases hcovered id current hcurrent with hlisted | hpending | hdue
        · exact .inl (.inr hlisted)
        · exact .inr (.inl (hpending.replace hposition rfl))
        · exact .inr (.inr hdue)
  | setState other target =>
      simp only [Redis.advance, perform]
      split
      · rename_i store hok
        rcases setStateScript_ok hok with ⟨hlisted, -, -, hstates⟩
        intro id current hcurrent
        rw [hstates] at hcurrent
        rw [hlisted]
        split_ifs at hcurrent with hid
        · cases hcurrent
          exact .inr (.inl ⟨_, mem_replaceAt.mpr (.inl rfl), by simp [Operation.lists, hid]⟩)
        · rcases hcovered id current hcurrent with hold | hpending | hdue
          · exact .inl hold
          · exact .inr (.inl (hpending.replace hposition rfl))
          · exact .inr (.inr hdue)
      · exact hsame _ _ fun _ _ ↦ rfl
  | index other target =>
      intro id current hcurrent
      simp only [Redis.advance, perform, stateOf_indexState] at hcurrent
      simp only [Redis.advance, perform, mem_indexState]
      by_cases hid : id = other
      · subst hid
        rcases hkeeps id target current hcurrent rfl with heq | hleft
        · exact .inl (by simpa using heq)
        · rcases List.any_eq_true.mp hleft with ⟨listing, hmem, hlists⟩
          exact .inr (.inl ⟨listing, mem_replaceAt.mpr (.inr hmem), hlists⟩)
      · rw [if_neg hid]
        rcases hcovered id current hcurrent with hlisted | hpending | hdue
        · exact .inl hlisted
        · refine .inr (.inl (hpending.replace hposition ?_))
          simp [Operation.lists, Ne.symm hid]
        · exact .inr (.inr hdue)

/-- A step of a call that lists candidates under present states keeps the others out. -/
theorem Confined.advance {position : ℕ} {operation : Operation Profile} {nowMs : ℤ} {granted : Bool}
    (hconfined : Confined dropped state)
    (hposition : state.operations[position]? = some operation)
    (hkeeps : ∀ id target, ∀ current ∈ stateOf state.store id, operation = .index id target →
      current = target ∨ (state.operations.eraseIdx position).any (·.lists id current) = true)
    (hpresent : ∀ observation existing, operation = .upsert observation existing →
      (∀ current ∈ stateOf state.store observation.target, current = writtenState existing) ∧
        (stateOf state.store observation.target = none → ∀ listing,
          observation.target ∈ state.store.listed listing → listing = writtenState existing)) :
    Confined dropped (Redis.advance cfg state position nowMs granted operation) := by
  have hsame (rest : Option (Operation Profile)) (publications : List Publication)
      (hplain : ∀ id target, operation.lists id target = false) :
      Confined dropped ⟨state.store, replaceAt state.operations position rest, publications⟩ :=
    fun id current hcurrent listing hlisted ↦
      (hconfined id current hcurrent listing hlisted).imp_right
        (.imp_left fun hpending ↦ hpending.replace hposition (hplain id current))
  cases operation with
  | ingest observation =>
      simp only [Redis.advance, perform]
      split <;> exact hsame _ _ fun _ _ ↦ rfl
  | reject id => exact hsame _ _ fun _ _ ↦ rfl
  | promote id =>
      simp only [Redis.advance, perform]
      split <;> exact hsame _ _ fun _ _ ↦ rfl
  | publish id =>
      simp only [Redis.advance, perform]
      split <;> exact hsame _ _ fun _ _ ↦ rfl
  | upsert observation existing =>
      rcases hpresent observation existing rfl with ⟨hwritten, habsent⟩
      intro id current hcurrent listing hlisted
      simp only [Redis.advance, perform, stateOf_upsertCandidate] at hcurrent
      simp only [Redis.advance, perform, mem_upsertCandidate] at hlisted
      split_ifs at hcurrent with htarget
      · cases hcurrent
        subst htarget
        rcases hlisted with ⟨heq, -⟩ | hold
        · exact .inl heq
        · cases hbefore : stateOf state.store observation.target with
          | none => exact .inl (habsent hbefore listing hold)
          | some before =>
              have hsame : before = writtenState existing := hwritten before hbefore
              subst hsame
              rcases hconfined _ _ hbefore listing hold with heq | hpending | hdropped
              · exact .inl heq
              · exact .inr (.inl (hpending.replace hposition rfl))
              · exact .inr (.inr hdropped)
      · rcases hlisted with ⟨-, heq⟩ | hold
        · exact absurd heq htarget
        · exact (hconfined id current hcurrent listing hold).imp_right
            (.imp_left fun hpending ↦ hpending.replace hposition rfl)
  | setState other target =>
      simp only [Redis.advance, perform]
      split
      · rename_i store hok
        rcases setStateScript_ok hok with ⟨hlists, -, -, hstates⟩
        intro id current hcurrent listing hlisted
        rw [hstates] at hcurrent
        rw [hlists] at hlisted
        split_ifs at hcurrent with hid
        · cases hcurrent
          exact .inr (.inl ⟨_, mem_replaceAt.mpr (.inl rfl), by simp [Operation.lists, hid]⟩)
        · exact (hconfined id current hcurrent listing hlisted).imp_right
            (.imp_left fun hpending ↦ hpending.replace hposition rfl)
      · exact hsame _ _ fun _ _ ↦ rfl
  | index other target =>
      intro id current hcurrent listing hlisted
      simp only [Redis.advance, perform, stateOf_indexState] at hcurrent
      simp only [Redis.advance, perform, mem_indexState] at hlisted
      by_cases hid : id = other
      · subst hid
        rw [if_pos rfl] at hlisted
        rcases hkeeps id target current hcurrent rfl with heq | hleft
        · exact .inl (hlisted.trans heq.symm)
        · rcases List.any_eq_true.mp hleft with ⟨pipeline, hmem, hlists⟩
          exact .inr (.inl ⟨pipeline, mem_replaceAt.mpr (.inr hmem), hlists⟩)
      · rw [if_neg hid] at hlisted
        refine (hconfined id current hcurrent listing hlisted).imp_right (.imp_left ?_)
        intro hpending
        refine hpending.replace hposition ?_
        simp [Operation.lists, Ne.symm hid]

/-! ## One step of the system -/

theorem Covered.mono {other : CandidateId → CandidateState → Prop} (hcovered : Covered due state)
    (himp : ∀ id current, stateOf state.store id = some current → due id current →
      id ∈ state.store.listed current ∨ other id current) : Covered other state := by
  intro id current hcurrent
  rcases hcovered id current hcurrent with hlisted | hpending | hdue
  · exact .inl hlisted
  · exact .inr (.inl hpending)
  · exact (himp id current hcurrent hdue).imp_right .inr

/-- A new call changes no listing and owes none. -/
theorem pending_start {request : Request Profile} {id : CandidateId} {current : CandidateState}
    (hpending : state.Pending id current) :
    LifecycleState.Pending { state with operations := request.operation :: state.operations }
      id current := by
  rcases hpending with ⟨listing, hmem, hlists⟩
  exact ⟨listing, List.mem_cons_of_mem _ hmem, hlists⟩

theorem RebuildStage.due_forget {stage : RebuildStage} {id other : CandidateId}
    {current : CandidateState} (hne : id ≠ other) (hdue : stage.due id current) :
    (stage.forget other).due id current := by
  cases stage <;> simp_all [RebuildStage.forget, RebuildStage.due]

theorem RebuildStage.paid_forget {stage : RebuildStage} {id : CandidateId} (hpaid : stage.Paid) :
    (stage.forget id).Paid := by
  cases stage <;> simp_all [RebuildStage.forget, RebuildStage.Paid]

theorem RebuildStage.drops_forget {stage : RebuildStage} {id : CandidateId}
    {listing : CandidateState} : (stage.forget id).drops listing ↔ stage.drops listing := by
  cases stage <;> rfl

theorem stateOf_expireCandidate {store : EvidenceStore Profile} {id other : CandidateId} :
    stateOf (expireCandidate store id) other =
      if other = id then none else stateOf store other := by
  by_cases hother : other = id <;> simp [stateOf, expireCandidate, hother]

/-- One command of the rebuild takes over what it owed: the scan its keys, the reply its members,
the addition its candidate. -/
theorem Covered.rebuild {stage following : RebuildStage} {reply : ScanReply}
    {store : EvidenceStore Profile} {added : ℕ}
    (hcovered : Covered (fun id current ↦ stage.due id current) state)
    (hpaid : stage.Paid) (hscan : stage.scansAll reply)
    (hstep : rebuildCandidateStep state.store reply stage = some (store, following, added)) :
    Covered (fun id current ↦ following.due id current) { state with store := store } ∧
      following.Paid := by
  cases stage with
  | dropping left =>
      cases left with
      | nil =>
          cases hstep
          refine ⟨hcovered.mono fun id current hcurrent _ ↦ .inr ?_, trivial⟩
          simp [RebuildStage.due, liveCandidates, hcurrent]
      | cons listing left =>
          cases hstep
          exact ⟨fun id current _ ↦ .inr (.inr trivial), trivial⟩
  | scanning owed =>
      cases hstep
      refine ⟨hcovered.mono fun id current _ hdue ↦ .inr ?_, fun hlast ↦ ?_⟩
      · by_cases hkey : id ∈ reply.keys
        · exact .inl hkey
        · exact .inr ⟨hdue, hkey⟩
      · rw [Set.sdiff_eq_empty]
        exact fun id hid ↦ hscan hlast id hid
  | reading keys owed last =>
      cases keys with
      | nil =>
          cases hstep
          cases last with
          | true =>
              refine ⟨hcovered.mono fun id current _ hdue ↦ ?_, trivial⟩
              simp [RebuildStage.due, hpaid rfl] at hdue
          | false =>
              refine ⟨hcovered.mono fun id current _ hdue ↦ .inr ?_, trivial⟩
              simpa [RebuildStage.due] using hdue
      | cons key keys =>
          simp only [rebuildCandidateStep] at hstep
          split at hstep
          · rename_i found hfound
            cases hstep
            refine ⟨hcovered.mono fun id current hcurrent hdue ↦ .inr ?_, hpaid⟩
            rcases hdue with hkey | howed
            · rcases List.mem_cons.mp hkey with rfl | hrest
              · rw [hfound, Option.some_inj] at hcurrent
                exact .inl ⟨rfl, hcurrent⟩
              · exact .inr (.inl hrest)
            · exact .inr (.inr howed)
          · rename_i hnone
            cases hstep
            refine ⟨hcovered.mono fun id current hcurrent hdue ↦ .inr ?_, hpaid⟩
            refine hdue.imp_left fun hkey ↦ (List.mem_cons.mp hkey).resolve_left ?_
            rintro rfl
            simp [hnone] at hcurrent
  | adding added found keys owed last =>
      cases hstep
      refine ⟨fun id current hcurrent ↦ ?_, hpaid⟩
      simp only [KeyedSets.mem_sadd]
      rcases hcovered id current hcurrent with hlisted | hpending | ⟨rfl, rfl⟩ | hdue
      · exact .inl (.inr hlisted)
      · exact .inr (.inl hpending)
      · exact .inl (.inl ⟨rfl, rfl⟩)
      · exact .inr (.inr hdue)
  | finished => cases hstep

/-- One command of the rebuild lists no candidate under a state it does not have. -/
theorem Confined.rebuild {stage following : RebuildStage} {reply : ScanReply}
    {store : EvidenceStore Profile} {added : ℕ}
    (hconfined : Confined (fun listing ↦ stage.drops listing) state)
    (hpresent : ∀ id found keys owed last, stage = .adding id found keys owed last →
      ∀ current ∈ stateOf state.store id, current = found ∨ state.Pending id current)
    (hstep : rebuildCandidateStep state.store reply stage = some (store, following, added)) :
    Confined (fun listing ↦ following.drops listing) { state with store := store } := by
  have hsame (hstage : ∀ listing, ¬ stage.drops listing) :
      Confined (fun listing ↦ following.drops listing) state := by
    intro id current hcurrent listing hlisted
    exact (hconfined id current hcurrent listing hlisted).imp_right
      (.imp_right fun hdrops ↦ absurd hdrops (hstage listing))
  cases stage with
  | dropping left =>
      cases left with
      | nil =>
          cases hstep
          exact hsame fun listing hdrops ↦ by simp [RebuildStage.drops] at hdrops
      | cons dropped left =>
          cases hstep
          intro id current hcurrent listing hlisted
          by_cases hlisting : listing = dropped
          · subst hlisting
            simp [dropListing] at hlisted
          · have hold : id ∈ state.store.listed listing := by
              simpa [dropListing, hlisting] using hlisted
            refine (hconfined id current hcurrent listing hold).imp_right (.imp_right ?_)
            exact fun hdrops ↦ (List.mem_cons.mp hdrops).resolve_left hlisting
  | scanning owed =>
      cases hstep
      exact hsame fun _ hdrops ↦ hdrops
  | reading keys owed last =>
      cases keys with
      | nil =>
          cases hstep
          exact hsame fun _ hdrops ↦ hdrops
      | cons key keys =>
          simp only [rebuildCandidateStep] at hstep
          split at hstep <;> cases hstep <;> exact hsame fun _ hdrops ↦ hdrops
  | adding key found keys owed last =>
      cases hstep
      intro id current hcurrent listing hlisted
      rcases KeyedSets.mem_sadd.mp hlisted with ⟨rfl, rfl⟩ | hold
      · exact (hpresent _ _ _ _ _ rfl current hcurrent).imp Eq.symm .inl
      · exact (hconfined id current hcurrent listing hold).imp_right
          (.imp_right fun hdrops ↦ hdrops.elim)
  | finished => cases hstep

/-- What holds of every state of a run from the start of a rebuild. -/
structure RebuildInv (state : ListingState Profile) : Prop where
  covered : Covered (fun id current ↦ state.stage.due id current) state.lifecycle
  paid : state.stage.Paid

/-- The same, with no live candidate listed elsewhere. -/
structure ExactInv (state : ListingState Profile) : Prop extends RebuildInv state where
  confined : Confined (fun listing ↦ state.stage.drops listing) state.lifecycle

theorem rebuildInv_start {start : ListingState Profile} {left : List CandidateState}
    (hstart : start.stage = .dropping left) : RebuildInv start where
  covered id current _ := by simp [hstart, RebuildStage.due]
  paid := by simp [hstart, RebuildStage.Paid]

theorem rebuildInv_step {before after : ListingState Profile} {event : ListingEvent Profile}
    (hinv : RebuildInv before) (hkeeps : keepsListed before event)
    (hstep : (listingMachine cfg).step before event = some after) : RebuildInv after := by
  cases event with
  | call event =>
      rcases Option.map_eq_some_iff.mp hstep with ⟨lifecycle, hnext, rfl⟩
      refine ⟨?_, hinv.paid⟩
      cases event with
      | start request =>
          cases hnext
          intro id current hcurrent
          exact (hinv.covered id current hcurrent).imp_right (.imp_left pending_start)
      | advance position nowMs granted =>
          rcases Option.map_eq_some_iff.mp hnext with ⟨operation, hposition, rfl⟩
          refine hinv.covered.advance hposition fun id target current hcurrent hindex ↦ ?_
          exact hkeeps id target current hcurrent (hindex ▸ hposition)
  | expire id =>
      cases hstep
      refine ⟨fun other current hcurrent ↦ ?_, RebuildStage.paid_forget hinv.paid⟩
      simp only [ListingState.withStore, stateOf_expireCandidate] at hcurrent
      split_ifs at hcurrent with hother
      exact (hinv.covered other current hcurrent).imp_right
        (.imp_right (RebuildStage.due_forget hother))
  | missing listing id =>
      simp only [listingMachine] at hstep
      split_ifs at hstep
      cases hstep
      exact ⟨hinv.covered, hinv.paid⟩
  | repair position =>
      rcases Option.map_eq_some_iff.mp hstep with ⟨repair, hrepair, rfl⟩
      refine ⟨fun id current hcurrent ↦ ?_, hinv.paid⟩
      refine (hinv.covered id current hcurrent).imp_left fun hlisted ↦ ?_
      refine KeyedSets.mem_srem.mpr ⟨?_, hlisted⟩
      rintro ⟨rfl, rfl⟩
      exact hkeeps repair hrepair hcurrent
  | rebuild reply =>
      rcases Option.map_eq_some_iff.mp hstep with ⟨result, hresult, rfl⟩
      rcases hinv.covered.rebuild hinv.paid hkeeps hresult with ⟨hcovered, hpaid⟩
      exact ⟨hcovered, hpaid⟩

theorem confined_step {before after : ListingState Profile} {event : ListingEvent Profile}
    (hconfined : Confined (fun listing ↦ before.stage.drops listing) before.lifecycle)
    (hkeeps : keepsListed before event) (hpresent : listsPresent before event)
    (hstep : (listingMachine cfg).step before event = some after) :
    Confined (fun listing ↦ after.stage.drops listing) after.lifecycle := by
  cases event with
  | call event =>
      rcases Option.map_eq_some_iff.mp hstep with ⟨lifecycle, hnext, rfl⟩
      cases event with
      | start request =>
          cases hnext
          intro id current hcurrent listing hlisted
          exact (hconfined id current hcurrent listing hlisted).imp_right (.imp_left pending_start)
      | advance position nowMs granted =>
          rcases Option.map_eq_some_iff.mp hnext with ⟨operation, hposition, rfl⟩
          refine hconfined.advance hposition (fun id target current hcurrent hindex ↦ ?_)
            fun observation existing hupsert ↦ ?_
          · exact hkeeps id target current hcurrent (hindex ▸ hposition)
          · exact hpresent observation existing (hupsert ▸ hposition)
  | expire id =>
      cases hstep
      intro other current hcurrent listing hlisted
      simp only [ListingState.withStore, stateOf_expireCandidate] at hcurrent
      split_ifs at hcurrent with hother
      simp only [RebuildStage.drops_forget]
      exact hconfined other current hcurrent listing hlisted
  | missing listing id =>
      simp only [listingMachine] at hstep
      split_ifs at hstep
      cases hstep
      exact hconfined
  | repair position =>
      rcases Option.map_eq_some_iff.mp hstep with ⟨repair, hrepair, rfl⟩
      intro id current hcurrent listing hlisted
      exact hconfined id current hcurrent listing (KeyedSets.mem_srem.mp hlisted).2
  | rebuild reply =>
      rcases Option.map_eq_some_iff.mp hstep with ⟨result, hresult, rfl⟩
      exact hconfined.rebuild hpresent hresult

end

/-! ## A fixed run -/

/-- One provisional candidate, listed as staged. -/
def misplacedStore : EvidenceStore Unit where
  candidates := Function.update (fun _ ↦ none) sampleObservation.target
    (some ⟨mergedRecord unitCfg sampleObservation none, .provisional⟩)
  listed := KeyedSets.sadd (fun _ ↦ ∅) .staged sampleObservation.target

def rebuildBegun : ListingState Unit :=
  ⟨⟨misplacedStore, [], []⟩, [], .dropping allCandidateStates, 0⟩

def soleReply : ScanReply := ⟨[sampleObservation.target], true⟩

/-- The commands of the rebuild, each with the one reply that the scan needs. -/
def rebuildNext (state : ListingState Unit) : ListingState Unit :=
  ((listingMachine unitCfg).step state (.rebuild soleReply)).getD state

theorem reachableFrom_rebuildNext {guard : ListingState Unit → ListingEvent Unit → Prop}
    {start : ListingState Unit} (commands : ℕ)
    (henabled : ∀ done < commands, ((listingMachine unitCfg).step (rebuildNext^[done] start)
      (.rebuild soleReply)).isSome)
    (hguard : ∀ done < commands, guard (rebuildNext^[done] start) (.rebuild soleReply)) :
    (listingMachine unitCfg).ReachableFrom guard start (rebuildNext^[commands] start) := by
  induction commands with
  | zero => exact .refl
  | succ commands ih =>
      rcases Option.isSome_iff_exists.mp (henabled commands (by omega)) with ⟨next, hnext⟩
      have hreached := ih (fun done hdone ↦ henabled done (by omega))
        fun done hdone ↦ hguard done (by omega)
      refine hreached.step (hguard commands (by omega)) (hnext.trans ?_)
      rw [Function.iterate_succ_apply', rebuildNext, hnext, Option.getD_some]

theorem rebuildBegun_listsPresent (done : ℕ) (hdone : done < 8) :
    listsPresent (rebuildNext^[done] rebuildBegun) (.rebuild soleReply) := by
  interval_cases done <;> intro id found keys owed last hstage current hcurrent <;> cases hstage
  have hread : stateOf misplacedStore sampleObservation.target = some .provisional := by decide
  exact .inl (Option.some_inj.mp (hcurrent.symm.trans hread))

theorem rebuildBegun_enabled : ∀ done < 8, ((listingMachine unitCfg).step
    (rebuildNext^[done] rebuildBegun) (.rebuild soleReply)).isSome := by
  decide

theorem rebuildBegun_scansAll (done : ℕ) (hdone : done < 8) :
    (rebuildNext^[done] rebuildBegun).stage.scansAll soleReply := by
  interval_cases done <;> try trivial
  intro _ id hlive
  by_contra hother
  have hid : id ≠ sampleObservation.target := by simpa [soleReply] using hother
  have hnone : stateOf misplacedStore id = none := by simp [stateOf, misplacedStore, hid]
  exact absurd (hnone ▸ hlive : (none : Option CandidateState).isSome = true) (by simp)

/-! ## Whole rebuilds -/

/-- Every candidate that is live when a rebuild has finished, or later, is listed under its state or
has a pipeline for that listing due, whatever the listings were and whoever worked in between. -/
theorem rebuild_lists_live (cfg : LifecycleCfg Profile) (start state : ListingState Profile)
    (hstart : start.stage = .dropping allCandidateStates)
    (hrun : (listingMachine cfg).ReachableFrom keepsListed start state)
    (hfinished : state.stage = .finished) :
    ∀ id current, stateOf state.lifecycle.store id = some current →
      id ∈ state.lifecycle.store.listed current ∨ state.lifecycle.Pending id current := by
  have hinv : RebuildInv state :=
    hrun.invariant (rebuildInv_start hstart) fun _ _ _ hinv hkeeps hstep ↦
      rebuildInv_step hinv hkeeps hstep
  intro id current hcurrent
  have hcovered := hinv.covered id current hcurrent
  simpa [hfinished, RebuildStage.due] using hcovered

theorem rebuild_lists_live_sole :
    sampleObservation.target ∈ (rebuildNext^[8] rebuildBegun).lifecycle.store.listed .provisional ∨
      (rebuildNext^[8] rebuildBegun).lifecycle.Pending sampleObservation.target .provisional :=
  rebuild_lists_live unitCfg rebuildBegun (rebuildNext^[8] rebuildBegun) rfl
    (reachableFrom_rebuildNext 8 rebuildBegun_enabled rebuildBegun_scansAll) rfl
    sampleObservation.target .provisional rfl

/-- A repair decided while a candidate was expired unlists it after it came back. -/
theorem repair_unlists_live :
    ∃ state, (listingMachine unitCfg).Reachable Machine.always state ∧
      stateOf state.lifecycle.store sampleObservation.target = some .provisional ∧
      ∀ listing, sampleObservation.target ∉ state.lifecycle.store.listed listing := by
  refine ⟨_, Machine.reachableFrom_replay [.call (.start (.ingest sampleObservation)),
    .call (.advance 0 0 true), .call (.advance 0 0 true), .expire sampleObservation.target,
    .missing .provisional sampleObservation.target, .call (.start (.ingest sampleObservation)),
    .call (.advance 0 0 true), .call (.advance 0 0 true), .repair 0] rfl, ?_, fun listing ↦ ?_⟩
  · decide
  · cases listing <;> decide

/-- Only the rebuild takes steps. -/
def onlyRebuild (state : ListingState Profile) : ListingEvent Profile → Prop
  | .rebuild reply => state.stage.scansAll reply
  | _ => False

/-- Whether the candidate is the one whose state was read last. -/
def RebuildStage.Reads (store : EvidenceStore Profile) : RebuildStage → Prop
  | .adding id found _ _ _ => stateOf store id = some found
  | _ => True

/-- What holds while only the rebuild works: `indexed` are the candidates it counted. -/
structure QuietInv (start state : ListingState Profile) (indexed : List CandidateId) : Prop where
  candidates : state.lifecycle.store.candidates = start.lifecycle.store.candidates
  counted : indexed.length = state.count
  paid : state.stage.Paid
  reads : state.stage.Reads state.lifecycle.store
  covered : ∀ id current, stateOf state.lifecycle.store id = some current →
    (id ∈ indexed ∧ id ∈ state.lifecycle.store.listed current) ∨ state.stage.due id current
  only : ∀ id listing, id ∈ state.lifecycle.store.listed listing →
    stateOf state.lifecycle.store id = some listing ∨ state.stage.drops listing

def QuietFrom (start state : ListingState Profile) : Prop := ∃ indexed, QuietInv start state indexed

theorem QuietInv.step {start before after : ListingState Profile} {indexed : List CandidateId}
    {reply : ScanReply} {result : EvidenceStore Profile × RebuildStage × ℕ}
    (hinv : QuietInv start before indexed) (hscan : before.stage.scansAll reply)
    (hresult : rebuildCandidateStep before.lifecycle.store reply before.stage = some result)
    (hafter : after = { before.withStore result.1 with
      stage := result.2.1, count := before.count + result.2.2 }) :
    QuietFrom start after := by
  rcases hinv with ⟨hcandidates, hcounted, hpaid, hreads, hcovered, honly⟩
  rcases before with ⟨⟨store, operations, publications⟩, repairs, stage, count⟩
  simp only at hcandidates hcounted hpaid hreads hcovered honly hresult hscan
  subst hafter
  cases stage with
  | dropping left =>
      cases left with
      | nil =>
          cases hresult
          refine ⟨indexed, hcandidates, hcounted, trivial, trivial, fun id current hcurrent ↦ ?_,
            fun id listing hlisted ↦ ?_⟩
          · right
            simp_all [RebuildStage.due, liveCandidates, ListingState.withStore]
          · exact .inl ((honly id listing hlisted).resolve_right (by simp [RebuildStage.drops]))
      | cons dropped left =>
          cases hresult
          refine ⟨indexed, hcandidates, hcounted, trivial, trivial, fun id current _ ↦ .inr trivial,
            fun id listing hlisted ↦ ?_⟩
          by_cases hlisting : listing = dropped
          · subst hlisting
            simp [ListingState.withStore, dropListing] at hlisted
          · have hold : id ∈ store.listed listing := by
              simpa [ListingState.withStore, dropListing, hlisting] using hlisted
            refine (honly id listing hold).imp_right fun hdrops ↦ ?_
            exact (List.mem_cons.mp hdrops).resolve_left hlisting
  | scanning owed =>
      cases hresult
      refine ⟨indexed, hcandidates, hcounted, fun hlast ↦ ?_, trivial,
        fun id current hcurrent ↦ ?_, honly⟩
      · rw [Set.sdiff_eq_empty]
        exact fun id hid ↦ hscan hlast id hid
      · refine (hcovered id current hcurrent).imp_right fun howed ↦ ?_
        by_cases hkey : id ∈ reply.keys
        · exact .inl hkey
        · exact .inr ⟨howed, hkey⟩
  | reading keys owed last =>
      cases keys with
      | nil =>
          cases hresult
          cases last with
          | true =>
              refine ⟨indexed, hcandidates, hcounted, trivial, trivial,
                fun id current hcurrent ↦ ?_, honly⟩
              refine (hcovered id current hcurrent).imp_right fun hdue ↦ ?_
              simp [RebuildStage.due, hpaid rfl] at hdue
          | false =>
              refine ⟨indexed, hcandidates, hcounted, trivial, trivial,
                fun id current hcurrent ↦ ?_, honly⟩
              refine (hcovered id current hcurrent).imp_right fun hdue ↦ ?_
              simpa [RebuildStage.due] using hdue
      | cons key keys =>
          simp only [rebuildCandidateStep] at hresult
          split at hresult
          · rename_i found hfound
            cases hresult
            refine ⟨indexed, hcandidates, hcounted, hpaid, hfound, fun id current hcurrent ↦ ?_,
              honly⟩
            refine (hcovered id current hcurrent).imp_right fun hdue ↦ ?_
            rcases hdue with hkey | howed
            · rcases List.mem_cons.mp hkey with rfl | hrest
              · exact .inl ⟨rfl, Option.some_inj.mp (hfound.symm.trans hcurrent)⟩
              · exact .inr (.inl hrest)
            · exact .inr (.inr howed)
          · rename_i hnone
            cases hresult
            refine ⟨indexed, hcandidates, hcounted, hpaid, trivial, fun id current hcurrent ↦ ?_,
              honly⟩
            refine (hcovered id current hcurrent).imp_right ?_
            refine Or.imp_left fun hkey ↦ (List.mem_cons.mp hkey).resolve_left ?_
            rintro rfl
            exact absurd (hnone.symm.trans hcurrent) (by simp)
  | adding key found keys owed last =>
      cases hresult
      refine ⟨key :: indexed, hcandidates, by simp [hcounted], hpaid, trivial,
        fun id current hcurrent ↦ ?_, fun id listing hlisted ↦ ?_⟩
      · simp only [ListingState.withStore, KeyedSets.mem_sadd, List.mem_cons]
        rcases hcovered id current hcurrent with ⟨hindexed, hlisted⟩ | ⟨rfl, rfl⟩ | hdue
        · exact .inl ⟨.inr hindexed, .inr hlisted⟩
        · exact .inl ⟨.inl rfl, .inl ⟨rfl, rfl⟩⟩
        · exact .inr hdue
      · rcases KeyedSets.mem_sadd.mp hlisted with ⟨rfl, rfl⟩ | hold
        · exact .inl hreads
        · exact (honly id listing hold).imp_right False.elim
  | finished => cases hresult

/-- A rebuild that works alone makes each listing the set of the candidates in that state, dead
members gone, keeps every hash and counts every live candidate at least once. -/
theorem rebuild_alone (cfg : LifecycleCfg Profile) (start state : ListingState Profile)
    (hstart : start.stage = .dropping allCandidateStates) (hcount : start.count = 0)
    (hrun : (listingMachine cfg).ReachableFrom onlyRebuild start state)
    (hfinished : state.stage = .finished) :
    state.lifecycle.store.candidates = start.lifecycle.store.candidates ∧
      (∀ listing id, id ∈ state.lifecycle.store.listed listing ↔
        stateOf start.lifecycle.store id = some listing) ∧
      ∀ ids : Finset CandidateId, (∀ id ∈ ids, (stateOf start.lifecycle.store id).isSome) →
        ids.card ≤ state.count := by
  have hbefore : QuietFrom start start := by
    refine ⟨[], rfl, by simp [hcount], by simp [hstart, RebuildStage.Paid],
      by simp [hstart, RebuildStage.Reads], fun id current _ ↦ .inr ?_, fun id listing _ ↦ ?_⟩
    · simp [hstart, RebuildStage.due]
    · cases listing <;> simp [hstart, RebuildStage.drops, allCandidateStates]
  have hinv : QuietFrom start state := by
    refine hrun.invariant hbefore ?_
    rintro before event after ⟨indexed, hinv⟩ hquiet hstep
    cases event with
    | rebuild reply =>
        rcases Option.map_eq_some_iff.mp hstep with ⟨result, hresult, hafter⟩
        exact hinv.step hquiet hresult hafter.symm
    | call event => exact hquiet.elim
    | expire id => exact hquiet.elim
    | missing listing id => exact hquiet.elim
    | repair position => exact hquiet.elim
  rcases hinv with ⟨indexed, hcandidates, hcounted, -, -, hcovered, honly⟩
  have hstates (id : CandidateId) :
      stateOf state.lifecycle.store id = stateOf start.lifecycle.store id := by
    unfold stateOf
    rw [hcandidates]
  have hlisted (id : CandidateId) (current : CandidateState)
      (hcurrent : stateOf start.lifecycle.store id = some current) :
      id ∈ indexed ∧ id ∈ state.lifecycle.store.listed current := by
    refine (hcovered id current ((hstates id).trans hcurrent)).resolve_right ?_
    simp [hfinished, RebuildStage.due]
  refine ⟨hcandidates, fun listing id ↦ ⟨fun hmem ↦ ?_, fun hcurrent ↦
    (hlisted id listing hcurrent).2⟩, fun ids hlive ↦ ?_⟩
  · rw [← hstates]
    refine (honly id listing hmem).resolve_right ?_
    simp [hfinished, RebuildStage.drops]
  · have hsub : ids ⊆ indexed.toFinset := by
      intro id hid
      rcases Option.isSome_iff_exists.mp (hlive id hid) with ⟨current, hcurrent⟩
      exact List.mem_toFinset.mpr (hlisted id current hcurrent).1
    calc ids.card ≤ indexed.toFinset.card := Finset.card_le_card hsub
      _ ≤ indexed.length := indexed.toFinset_card_le
      _ = state.count := hcounted

/-- The rebuild alone takes eight commands and lists the candidate where it belongs. -/
theorem rebuild_alone_sole :
    (∀ listing, sampleObservation.target ∈
      (rebuildNext^[8] rebuildBegun).lifecycle.store.listed listing ↔ listing = .provisional) ∧
      1 ≤ (rebuildNext^[8] rebuildBegun).count := by
  rcases rebuild_alone unitCfg rebuildBegun (rebuildNext^[8] rebuildBegun) rfl rfl
    (reachableFrom_rebuildNext 8 rebuildBegun_enabled rebuildBegun_scansAll) rfl with
    ⟨-, hlisted, hcount⟩
  constructor
  · intro listing
    rw [hlisted]
    cases listing <;> decide
  · exact hcount {sampleObservation.target} (by simp [stateOf, rebuildBegun, misplacedStore])

end Deblob.Redis
