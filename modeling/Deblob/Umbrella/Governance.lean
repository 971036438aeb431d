import Deblob.Redis.Umbrellas
import Deblob.Umbrella.Verify
import Deblob.Core.Identity
import Deblob.Lib.Pending
import Deblob.Lib.TransitionSystem

/-!
# Decisions about umbrellas

The controller proposes umbrellas; people approve and reject them. Each request is a check of the
umbrella's state followed by store calls, and the calls of all requests interleave. A decision is
final as long as no request writes over one that was made after its check.
-/

namespace Deblob.Umbrella

open Core Lib Redis

/-! ## Requests -/

/-- What a request does next. -/
inductive Request where
  /-- The umbrella was not decided and enough of its members have a verified transform. -/
  | proposing (umbrella : UmbrellaRecord) (transforms : List TransformRecord)
  | attaching (transforms : List TransformRecord)
  /-- The umbrella was provisional. -/
  | listing (umbrella : UmbrellaRecord) (id reason : String)
  | loading (umbrella : UmbrellaRecord) (id reason : String) (children : List String)
      (loaded : List TransformRecord)
  /-- Every transform passed the static verification. -/
  | promoting (bundle : UmbrellaBundle) (reason : String)
  | recording (assertion : LineageAssertion)
  /-- The umbrella was there. -/
  | rejecting (id : String)
  | marking (id : String)

structure GovernanceState where
  store : RedisUmbrella
  requests : List Request
  /-- Every lineage assertion that was written. -/
  lineages : List LineageAssertion

inductive GovernanceEvent where
  /-- One group of a proposal run, its members with their assembled transforms and fields. -/
  | propose (umbrella : UmbrellaRecord) (members : List (TransformRecord × List ChildField))
  | approve (id reason : String)
  | reject (id : String)
  | list (position : ℕ) (children : List String)
  /-- `fields` is what the registry and the annotations say about the children. -/
  | verify (position : ℕ) (fields : SchemaId → Option (List ChildField))
  | advance (position : ℕ)
  /-- A store error, a lost connection or a guard ends a request. -/
  | abandon (position : ℕ)

/-- The white space of Unicode. -/
def isWhitespace (c : Char) : Bool :=
  (9 ≤ c.toNat && c.toNat ≤ 13) || (0x2000 ≤ c.toNat && c.toNat ≤ 0x200A) ||
    c.toNat ∈ [0x20, 0x85, 0xA0, 0x1680, 0x2028, 0x2029, 0x202F, 0x205F, 0x3000]

variable (serde : Serde)

/-- A proposal leaves umbrellas alone that were decided. -/
def startProposal (store : RedisUmbrella) (umbrella : UmbrellaRecord)
    (members : List (TransformRecord × List ChildField)) : Option Request :=
  match store.getUmbrella serde umbrella.umbrellaId with
  | .error _ => none
  | .ok existing =>
    let verified := members.filter fun member ↦
      (verifyStatic member.1.toChildTransform umbrella.toUmbrellaSchema member.2).isEmpty
    if existing.all (fun stored ↦ stored.state = .provisional) ∧ 2 ≤ verified.length then
      some (.proposing umbrella (verified.map Prod.fst))
    else none

/-- Only a provisional umbrella is approved, with a reason. -/
def startApproval (store : RedisUmbrella) (id reason : String) : Option Request :=
  match store.getUmbrella serde id with
  | .ok (some stored) =>
    if stored.state = .provisional ∧ ¬ reason.toList.all isWhitespace then
      some (.listing stored.schema id reason)
    else none
  | .ok none | .error _ => none

def startRejection (store : RedisUmbrella) (id : String) : Option Request :=
  match store.getUmbrella serde id with
  | .ok (some _) => some (.rejecting id)
  | .ok none | .error _ => none

/-- Every child is there, and its transform has no issues. -/
def passesGate (umbrella : UmbrellaRecord) (fields : SchemaId → Option (List ChildField))
    (transforms : List TransformRecord) : Bool :=
  transforms.all fun transform ↦
    match (DigestId.parse transform.childSchemaId).bind fields with
    | some childFields =>
      (verifyStatic transform.toChildTransform umbrella.toUmbrellaSchema childFields).isEmpty
    | none => false

def lineageOf (bundle : UmbrellaBundle) (reason : String) : LineageAssertion where
  umbrellaId := bundle.umbrella.umbrellaId
  umbrellaVersion := bundle.umbrella.version
  members := bundle.transforms.map fun transform ↦
    ⟨transform.childSchemaId, transform.childRevision, true⟩
  approvedReason := reason

/-- The next store call of a request: the store afterwards, what is left of the request, and the
lineage assertion it wrote. -/
def Request.advance (store : RedisUmbrella) :
    Request → Option (RedisUmbrella × Option Request × Option LineageAssertion)
  | .proposing umbrella transforms =>
    some (store.putUmbrella serde umbrella .provisional, some (.attaching transforms), none)
  | .attaching [] => some (store, none, none)
  | .attaching (transform :: transforms) =>
    some (store.putTransform serde transform, some (.attaching transforms), none)
  | .loading umbrella id reason (child :: children) loaded =>
    match store.getTransform serde id child with
    | .ok found =>
      some (store, some (.loading umbrella id reason children (loaded ++ found.toList)), none)
    | .error _ => some (store, none, none)
  | .promoting bundle reason =>
    match bundle.mismatch with
    | some _ => some (store, none, none)
    | none =>
      some (store.writeBundle serde bundle, some (.recording (lineageOf bundle reason)), none)
  | .recording assertion =>
    some (store.putLineageAssertion serde assertion, none, some assertion)
  | .rejecting id =>
    some (store, if store.existsUmbrella id then some (.marking id) else none, none)
  | .marking id => some (store.writeState id .rejected, none, none)
  | .listing .. | .loading _ _ _ [] _ => none

def governanceStep (state : GovernanceState) : GovernanceEvent → Option GovernanceState
  | .propose umbrella members => some { state with
      requests := (startProposal serde state.store umbrella members).toList ++ state.requests }
  | .approve id reason => some { state with
      requests := (startApproval serde state.store id reason).toList ++ state.requests }
  | .reject id => some { state with
      requests := (startRejection serde state.store id).toList ++ state.requests }
  | .list position children =>
    match state.requests[position]? with
    | some (.listing umbrella id reason) =>
      if Enumerates children (state.store.sets (transformsIndex id)) then some { state with
        requests := replaceAt state.requests position
          (some (.loading umbrella id reason children [])) }
      else none
    | _ => none
  | .verify position fields =>
    match state.requests[position]? with
    | some (.loading umbrella _ reason [] loaded) => some { state with
        requests := replaceAt state.requests position
          (if passesGate umbrella fields loaded then some (.promoting ⟨umbrella, loaded⟩ reason)
            else none) }
    | _ => none
  | .advance position => (state.requests[position]?).bind fun request ↦
      (request.advance serde state.store).map fun (store, next, written) ↦
        { store
          requests := replaceAt state.requests position next
          lineages := state.lineages ++ written.toList }
  | .abandon position =>
    if position < state.requests.length then
      some { state with requests := state.requests.eraseIdx position }
    else none

/-- Any number of requests against a store. -/
def governanceMachine (start : RedisUmbrella) : Machine GovernanceState GovernanceEvent where
  init := ⟨start, [], []⟩
  step := governanceStep serde

/-! ## Decisions -/

def stateOf (store : RedisUmbrella) (id : String) : Option UmbrellaState :=
  (store.hashes (umbKey id)).state.bind parseState

/-- A person has decided about the umbrella. -/
def Decided (store : RedisUmbrella) (id : String) : Prop :=
  stateOf store id = some .active ∨ stateOf store id = some .rejected

instance (store : RedisUmbrella) (id : String) : Decidable (Decided store id) :=
  inferInstanceAs (Decidable (_ ∨ _))

/-- The umbrella a request is about to write because of what it read earlier. -/
def Request.target : Request → Option String
  | .proposing umbrella _ => some umbrella.umbrellaId
  | .promoting bundle _ =>
    if bundle.mismatch = none then some bundle.umbrella.umbrellaId else none
  | _ => none

/-- No proposal and no approval writes over a decision. -/
def respectsDecisions (state : GovernanceState) : GovernanceEvent → Prop
  | .advance position => ∀ request ∈ state.requests[position]?, ∀ id ∈ request.target,
      ¬ Decided state.store id
  | _ => True

/-- Decisions only ever go on: from none to active to rejected. -/
def decisionRank : Option UmbrellaState → ℕ
  | none | some .provisional => 0
  | some .active => 1
  | some .rejected => 2

section

variable {serde} {store : RedisUmbrella}

theorem decisionRank_pos {id : String} :
    0 < decisionRank (stateOf store id) ↔ Decided store id := by
  unfold Decided
  rcases stateOf store id with _ | _ | _ | _ <;> simp [decisionRank]

theorem stateOf_update {hashes : String → UmbrellaHash} {id other : String} {record : Option String}
    {state : UmbrellaState} {sets : KeyedSets String String} {strings : String → Option String} :
    stateOf ⟨Function.update hashes (umbKey id) ⟨record, some (stateStr state)⟩, sets, strings⟩
      other = if other = id then some state
        else (hashes (umbKey other)).state.bind parseState := by
  unfold stateOf
  dsimp only
  split_ifs with hother
  · rw [hother, Function.update_self]
    exact parseState_stateStr state
  · rw [Function.update_of_ne (umbKey_injective.ne hother)]

theorem stateOf_putUmbrella {schema : UmbrellaRecord} {state : UmbrellaState} {id : String} :
    stateOf (store.putUmbrella serde schema state) id =
      if id = schema.umbrellaId then some state else stateOf store id :=
  stateOf_update

theorem stateOf_writeState {state : UmbrellaState} {id other : String} :
    stateOf (store.writeState id state) other =
      if other = id then some state else stateOf store other :=
  stateOf_update

theorem stateOf_writeBundle {bundle : UmbrellaBundle} (hbundle : bundle.mismatch = none)
    {id : String} : stateOf (store.writeBundle serde bundle) id =
      if id = bundle.umbrella.umbrellaId then some .active else stateOf store id := by
  have hfold (transforms : List TransformRecord) (written : RedisUmbrella) :
      stateOf (transforms.foldl (RedisUmbrella.putTransform serde) written) id =
        stateOf written id := by
    induction transforms generalizing written with
    | nil => rfl
    | cons transform transforms ih => exact ih (written.putTransform serde transform)
  rw [RedisUmbrella.writeBundle_eq hbundle, hfold, stateOf_putUmbrella]

/-! ## What a request writes -/

/-- The request is about to record the lineage of the umbrella. -/
def Request.recordsFor (id : String) : Request → Bool
  | .recording assertion => assertion.umbrellaId = id
  | _ => false

section

variable {request : Request} {next : Option Request} {last : RedisUmbrella}
  {written : Option LineageAssertion} {id : String}

/-- A store call that respects the decisions takes none back. -/
theorem Request.advance_rank (hadvance : request.advance serde store = some (last, next, written))
    (hrespects : ∀ id ∈ request.target, ¬ Decided store id) :
    decisionRank (stateOf store id) ≤ decisionRank (stateOf last id) := by
  cases request with
  | proposing umbrella transforms =>
      cases hadvance
      rw [stateOf_putUmbrella]
      split_ifs with hid
      · have hundecided := hrespects umbrella.umbrellaId rfl
        rw [← decisionRank_pos, ← hid] at hundecided
        exact (Nat.eq_zero_of_not_pos hundecided).le
      · exact le_rfl
  | attaching transforms =>
      cases transforms <;> cases hadvance <;> exact le_rfl
  | listing => cases hadvance
  | loading umbrella umbrellaId reason children loaded =>
      cases children with
      | nil => cases hadvance
      | cons child children =>
          simp only [Request.advance] at hadvance
          split at hadvance <;> cases hadvance <;> exact le_rfl
  | promoting bundle reason =>
      simp only [Request.advance] at hadvance
      split at hadvance
      · cases hadvance
        exact le_rfl
      · rename_i hbundle
        cases hadvance
        rw [stateOf_writeBundle hbundle]
        split_ifs with hid
        · have hundecided := hrespects bundle.umbrella.umbrellaId (if_pos hbundle)
          rw [← decisionRank_pos, ← hid] at hundecided
          omega
        · exact le_rfl
  | recording assertion =>
      cases hadvance
      exact le_rfl
  | rejecting umbrellaId =>
      cases hadvance
      exact le_rfl
  | marking umbrellaId =>
      cases hadvance
      rw [stateOf_writeState]
      split_ifs
      · rcases stateOf store id with _ | _ | _ | _ <;> decide
      · exact le_rfl

/-- A lineage assertion is recorded by the request that was about to, and a request gets there by
deciding about an umbrella that was not decided. -/
theorem Request.advance_records
    (hadvance : request.advance serde store = some (last, next, written))
    (hrespects : ∀ id ∈ request.target, ¬ Decided store id) :
    next.toList.countP (recordsFor id) + written.toList.countP (·.umbrellaId = id) ≤
      [request].countP (recordsFor id) +
        if ¬ Decided store id ∧ Decided last id then 1 else 0 := by
  cases request with
  | proposing umbrella transforms =>
      cases hadvance
      exact Nat.zero_le _
  | attaching transforms =>
      cases transforms <;> cases hadvance <;> exact Nat.zero_le _
  | listing => cases hadvance
  | loading umbrella umbrellaId reason children loaded =>
      cases children with
      | nil => cases hadvance
      | cons child children =>
          simp only [Request.advance] at hadvance
          split at hadvance <;> cases hadvance <;> exact Nat.zero_le _
  | promoting bundle reason =>
      simp only [Request.advance] at hadvance
      split at hadvance
      · cases hadvance
        exact Nat.zero_le _
      · rename_i hbundle
        cases hadvance
        by_cases hid : id = bundle.umbrella.umbrellaId
        · have hundecided := hrespects bundle.umbrella.umbrellaId (if_pos hbundle)
          have hdecided : Decided (store.writeBundle serde bundle) bundle.umbrella.umbrellaId := by
            left
            rw [stateOf_writeBundle hbundle, if_pos rfl]
          rw [hid, if_pos ⟨hundecided, hdecided⟩]
          simp [recordsFor, lineageOf]
        · simp [recordsFor, lineageOf, Ne.symm hid]
  | recording assertion =>
      cases hadvance
      simp [recordsFor]
  | rejecting umbrellaId =>
      cases hadvance
      split_ifs <;> exact Nat.zero_le _
  | marking umbrellaId =>
      cases hadvance
      exact Nat.zero_le _

end

/-! ## Runs -/

/-- An umbrella's lineage is recorded or about to be recorded at most once, and only when it is
decided. -/
def LineageOnce (state : GovernanceState) : Prop :=
  ∀ id, state.requests.countP (Request.recordsFor id) +
    state.lineages.countP (·.umbrellaId = id) ≤ if Decided state.store id then 1 else 0

variable {state next : GovernanceState}

/-- Requests that record nothing can come and go. -/
theorem LineageOnce.withRequests (honce : LineageOnce state) {requests : List Request}
    (hrequests : ∀ id, requests.countP (Request.recordsFor id) ≤
      state.requests.countP (Request.recordsFor id)) : LineageOnce { state with requests } := by
  intro id
  exact le_trans (Nat.add_le_add_right (hrequests id) _) (honce id)

theorem countP_start (requests : List Request) {start : Option Request}
    (hstart : ∀ request ∈ start, ∀ assertion, request ≠ .recording assertion) (id : String) :
    (start.toList ++ requests).countP (Request.recordsFor id) ≤
      requests.countP (Request.recordsFor id) := by
  cases start with
  | none => exact le_rfl
  | some request =>
      have hnone : request.recordsFor id = false := by
        unfold Request.recordsFor
        split
        · exact absurd rfl (hstart _ rfl _)
        · rfl
      rw [Option.toList_some, List.singleton_append, List.countP_cons_of_neg]
      rw [hnone]
      exact Bool.false_ne_true

theorem countP_replaced (requests : List Request) (position : ℕ) {replacement : Option Request}
    (hreplacement : ∀ request ∈ replacement, ∀ assertion, request ≠ .recording assertion)
    (id : String) : (replaceAt requests position replacement).countP (Request.recordsFor id) ≤
      requests.countP (Request.recordsFor id) :=
  (countP_start _ hreplacement id).trans (List.eraseIdx_sublist requests position).countP_le

theorem LineageOnce.advance (honce : LineageOnce state) {position : ℕ} {request : Request}
    (hposition : state.requests[position]? = some request)
    {store : RedisUmbrella} {left : Option Request} {written : Option LineageAssertion}
    (hadvance : request.advance serde state.store = some (store, left, written))
    (hrespects : ∀ id ∈ request.target, ¬ Decided state.store id) :
    LineageOnce ⟨store, replaceAt state.requests position left,
      state.lineages ++ written.toList⟩ := by
  intro id
  have hbefore := honce id
  have hrecords := @Request.advance_records serde _ _ _ _ _ id hadvance hrespects
  have hrank := @Request.advance_rank serde _ _ _ _ _ id hadvance hrespects
  have hkept : Decided state.store id → Decided store id := by
    intro hdecided
    rw [← decisionRank_pos] at hdecided ⊢
    exact lt_of_lt_of_le hdecided hrank
  rw [countP_pending hposition] at hbefore
  dsimp only
  rw [countP_replaceAt, List.countP_append]
  by_cases hfirst : Decided state.store id
  · rw [if_pos hfirst] at hbefore
    rw [if_neg fun hnew ↦ hnew.1 hfirst] at hrecords
    rw [if_pos (hkept hfirst)]
    omega
  · rw [if_neg hfirst] at hbefore
    by_cases hlast : Decided store id
    · rw [if_pos ⟨hfirst, hlast⟩] at hrecords
      rw [if_pos hlast]
      omega
    · rw [if_neg fun hnew ↦ hlast hnew.2] at hrecords
      rw [if_neg hlast]
      omega

/-- A step that respects the decisions takes none back, and keeps lineages single. -/
theorem governance_step {event : GovernanceEvent} (hrespects : respectsDecisions state event)
    (hstep : governanceStep serde state event = some next) :
    (∀ id, decisionRank (stateOf state.store id) ≤ decisionRank (stateOf next.store id)) ∧
      (LineageOnce state → LineageOnce next) := by
  cases event with
  | propose umbrella members =>
      cases hstep
      have hstart : ∀ request ∈ startProposal serde state.store umbrella members,
          ∀ assertion, request ≠ .recording assertion := by
        intro request hrequest assertion heq
        unfold startProposal at hrequest
        grind
      exact ⟨fun id ↦ le_rfl, fun honce ↦ honce.withRequests (countP_start _ hstart)⟩
  | approve id reason =>
      cases hstep
      have hstart : ∀ request ∈ startApproval serde state.store id reason,
          ∀ assertion, request ≠ .recording assertion := by
        intro request hrequest assertion heq
        unfold startApproval at hrequest
        grind
      exact ⟨fun id ↦ le_rfl, fun honce ↦ honce.withRequests (countP_start _ hstart)⟩
  | reject id =>
      cases hstep
      have hstart : ∀ request ∈ startRejection serde state.store id,
          ∀ assertion, request ≠ .recording assertion := by
        intro request hrequest assertion heq
        unfold startRejection at hrequest
        grind
      exact ⟨fun id ↦ le_rfl, fun honce ↦ honce.withRequests (countP_start _ hstart)⟩
  | list position children =>
      simp only [governanceStep] at hstep
      split at hstep
      · split_ifs at hstep
        cases hstep
        constructor
        · exact fun id ↦ le_rfl
        · intro honce
          apply honce.withRequests
          apply countP_replaced
          intro request hrequest assertion heq
          rcases Option.mem_some_iff.mp hrequest with rfl
          cases heq
      · cases hstep
  | verify position fields =>
      simp only [governanceStep] at hstep
      split at hstep
      · cases hstep
        constructor
        · exact fun id ↦ le_rfl
        · intro honce
          apply honce.withRequests
          apply countP_replaced
          intro request hrequest assertion heq
          split_ifs at hrequest
          · rcases Option.mem_some_iff.mp hrequest with rfl
            cases heq
          · cases hrequest
      · cases hstep
  | advance position =>
      rcases Option.bind_eq_some_iff.mp hstep with ⟨request, hposition, htaken⟩
      rcases Option.map_eq_some_iff.mp htaken with ⟨⟨store, left, written⟩, hadvance, rfl⟩
      have htarget : ∀ id ∈ request.target, ¬ Decided state.store id :=
        fun id hid ↦ hrespects request hposition id hid
      constructor
      · exact fun id ↦ Request.advance_rank hadvance htarget
      · exact fun honce ↦ honce.advance hposition hadvance htarget
  | abandon position =>
      simp only [governanceStep] at hstep
      split_ifs at hstep
      cases hstep
      constructor
      · exact fun id ↦ le_rfl
      · intro honce
        apply honce.withRequests
        exact fun id ↦ (List.eraseIdx_sublist _ position).countP_le

/-- A step that does not respect the decisions makes a decided umbrella provisional, or active once
more with a second lineage to record. -/
theorem overturns {event : GovernanceEvent} (hrespects : ¬ respectsDecisions state event)
    (hstep : governanceStep serde state event = some next) :
    ∃ id, Decided state.store id ∧ (stateOf next.store id = some .provisional ∨
      stateOf next.store id = some .active ∧ ∃ request ∈ next.requests, request.recordsFor id) := by
  cases event with
  | advance position =>
      rcases Option.bind_eq_some_iff.mp hstep with ⟨request, hposition, htaken⟩
      rcases Option.map_eq_some_iff.mp htaken with ⟨⟨store, left, written⟩, hadvance, rfl⟩
      have htarget : ∃ id ∈ request.target, Decided state.store id := by
        by_contra hnone
        apply hrespects
        intro other hother id hid hdecided
        rcases Option.some.inj (hposition.symm.trans hother) with rfl
        exact hnone ⟨id, hid, hdecided⟩
      rcases htarget with ⟨id, hid, hdecided⟩
      apply Exists.intro id
      constructor
      · exact hdecided
      · cases request with
        | proposing umbrella transforms =>
            cases hid
            cases hadvance
            left
            rw [stateOf_putUmbrella, if_pos rfl]
        | promoting bundle reason =>
            unfold Request.target at hid
            dsimp only at hid
            split_ifs at hid with hbundle
            · cases hid
              simp only [Request.advance, hbundle] at hadvance
              cases hadvance
              right
              constructor
              · rw [stateOf_writeBundle hbundle, if_pos rfl]
              · apply Exists.intro (.recording (lineageOf bundle reason))
                constructor
                · exact List.mem_cons_self
                · exact decide_eq_true rfl
            · cases hid
        | _ => cases hid
  | _ => exact absurd trivial hrespects

theorem decisionRank_mono {start : RedisUmbrella} {first last : GovernanceState}
    (reached : (governanceMachine serde start).ReachableFrom respectsDecisions first last)
    (id : String) :
    decisionRank (stateOf first.store id) ≤ decisionRank (stateOf last.store id) := by
  apply reached.invariant
  · exact le_rfl
  · intro state event next hrank hrespects hstep
    exact hrank.trans ((governance_step hrespects hstep).1 id)

end

/-- In every run in which no proposal and no approval writes over a decision, an umbrella that is
active or rejected never becomes provisional again, a rejected one is never activated, and at most
one lineage assertion is recorded for an umbrella. Every step that writes over a decision overturns
it or approves the umbrella again. -/
theorem decisions_final (serde : Serde) (start : RedisUmbrella) (state later : GovernanceState)
    (reached : (governanceMachine serde start).Reachable respectsDecisions state)
    (onward : (governanceMachine serde start).ReachableFrom respectsDecisions state later) :
    (∀ id, Decided state.store id → stateOf later.store id ≠ some .provisional) ∧
    (∀ id, stateOf state.store id = some .rejected → stateOf later.store id ≠ some .active) ∧
    (∀ id, (later.lineages.filter fun assertion ↦ assertion.umbrellaId = id).length ≤ 1) ∧
    ∀ event next, ¬ respectsDecisions state event → governanceStep serde state event = some next →
      ∃ id, Decided state.store id ∧ (stateOf next.store id = some .provisional ∨
        stateOf next.store id = some .active ∧
          ∃ request ∈ next.requests, request.recordsFor id) := by
  have honce : LineageOnce later := by
    apply (reached.trans onward).invariant
    · exact fun id ↦ Nat.zero_le _
    · exact fun state event next honce hrespects hstep ↦ (governance_step hrespects hstep).2 honce
  constructor
  · intro id hdecided hprovisional
    have hrank := decisionRank_mono onward id
    rw [hprovisional] at hrank
    exact absurd (decisionRank_pos.mpr hdecided) (Nat.not_lt.mpr hrank)
  constructor
  · intro id hrejected hactive
    have hrank := decisionRank_mono onward id
    rw [hrejected, hactive] at hrank
    exact absurd hrank (by decide)
  constructor
  · intro id
    have hid := honce id
    rw [← List.countP_eq_length_filter]
    split_ifs at hid <;> omega
  · exact fun event next hrespects hstep ↦ overturns hrespects hstep

/-! ### Two sources of prices -/

instance (state : GovernanceState) (event : GovernanceEvent) :
    Decidable (respectsDecisions state event) :=
  match event with
  | .advance position => inferInstanceAs (Decidable (
      ∀ request ∈ state.requests[position]?, ∀ id ∈ request.target, ¬ Decided state.store id))
  | .propose .. | .approve .. | .reject _ | .list .. | .verify .. | .abandon _ => .isTrue trivial

def pricePath : JsonPath := ⟨["price"], List.cons_ne_nil _ _⟩

def priceUmbrella : UmbrellaRecord where
  fields := [⟨pricePath, .scalar .decimal, none, .required⟩]
  umbrellaId := "umb_3b44deb1e7438279"
  label := "consolidated-3b44deb1"
  version := 1

def priceFields : List ChildField := [⟨pricePath, .decimal, none, false⟩]

def priceTransform (child : String) : TransformRecord where
  bindings := [⟨pricePath, pricePath, [], .reject⟩]
  childSchemaId := child
  umbrellaId := priceUmbrella.umbrellaId
  childRevision := child

/-- Two schema identifiers. -/
def priceChildren : List String :=
  ["sch_" ++ String.ofList (.replicate 52 'a'), "sch_b" ++ String.ofList (.replicate 51 'a')]

def priceUmbrellaText : String :=
  "\x7b\"umbrella_id\":\"umb_3b44deb1e7438279\",\"label\":\"consolidated-3b44deb1\"," ++
    "\"version\":1,\"fields\":[\x7b\"canonical_field_id\":\"cfid_price\"," ++
    "\"path\":\"$.price\",\"name\":\"price\",\"ty\":\x7b\"kind\":\"scalar\"," ++
    "\"of\":\"decimal\"\x7d,\"unit\":null,\"cardinality\":\"required\"\x7d]\x7d"

def priceTransformText (transform : TransformRecord) : String :=
  "\x7b\"child_schema_id\":\"" ++ transform.childSchemaId ++
    "\",\"umbrella_id\":\"umb_3b44deb1e7438279\",\"child_revision\":\"" ++
    transform.childRevision ++ "\",\"umbrella_revision\":\"umb_3b44deb1e7438279@1\"," ++
    "\"bindings\":[\x7b\"source\":\"$.price\",\"target\":\"$.price\",\"ops\":[]," ++
    "\"on_missing\":\"reject\",\"on_error\":\"reject\"\x7d],\"unmapped_source_paths\":[]\x7d"

def priceSerde : Serde where
  umbrella := .ofValues (fun _ ↦ priceUmbrellaText) [priceUmbrella]
  transform := .ofValues priceTransformText (priceChildren.map priceTransform)
  lineage := .ofValues (fun assertion ↦ assertion.approvedReason) []

def proposePrices : GovernanceEvent :=
  .propose priceUmbrella (priceChildren.map fun child ↦ (priceTransform child, priceFields))

/-- The umbrella is put with its transforms; `during` happens before it is approved. -/
def approvePrices (during : List GovernanceEvent) : List GovernanceEvent :=
  [proposePrices, .advance 0, .advance 0, .advance 0, .advance 0] ++ during ++
    [.approve priceUmbrella.umbrellaId "reviewed", .list 0 priceChildren, .advance 0, .advance 0,
      .verify 0 fun _ ↦ some priceFields, .advance 0, .advance 0]

/-- The state of the umbrella and the number of lineage assertions. -/
def priceView (state : GovernanceState) : Option UmbrellaState × ℕ :=
  (stateOf state.store priceUmbrella.umbrellaId, state.lineages.length)

def priceMachine : Machine GovernanceState GovernanceEvent := governanceMachine priceSerde .empty

/-- Proposed, approved and at last rejected; the proposal in between finds the umbrella decided. -/
theorem decisions_final_prices : ∃ state later : GovernanceState,
    priceMachine.Reachable respectsDecisions state ∧
      priceMachine.ReachableFrom respectsDecisions state later ∧
      priceView state = (some .active, 1) ∧ priceView later = (some .rejected, 1) ∧
      stateOf later.store priceUmbrella.umbrellaId ≠ some .provisional := by
  have hreplay : (priceMachine.replay respectsDecisions priceMachine.init (approvePrices [])).bind
      (fun state ↦ (priceMachine.replay respectsDecisions state
        [proposePrices, .reject priceUmbrella.umbrellaId, .advance 0, .advance 0]).map
          fun later ↦ (priceView state, priceView later)) =
      some ((some .active, 1), (some .rejected, 1)) := by
    decide +kernel
  rcases Option.bind_eq_some_iff.mp hreplay with ⟨state, hstate, hrest⟩
  rcases Option.map_eq_some_iff.mp hrest with ⟨later, hlater, hviews⟩
  rcases Prod.mk.inj hviews with ⟨hview, hend⟩
  have hreached : priceMachine.Reachable respectsDecisions state :=
    Machine.reachableFrom_replay _ hstate
  have honward : priceMachine.ReachableFrom respectsDecisions state later :=
    Machine.reachableFrom_replay _ hlater
  have hdecided : Decided state.store priceUmbrella.umbrellaId := .inl (congrArg Prod.fst hview)
  have hfinal := decisions_final priceSerde .empty state later hreached honward
  exact ⟨state, later, hreached, honward, hview, hend, hfinal.1 _ hdecided⟩

/-- A second proposal reads the umbrella as provisional, it is approved, and then the proposal
writes it as provisional again. -/
theorem decisions_overwritten : ∃ state later : GovernanceState,
    priceMachine.Reachable Machine.always state ∧
      priceMachine.ReachableFrom Machine.always state later ∧
      Decided state.store priceUmbrella.umbrellaId ∧
      stateOf later.store priceUmbrella.umbrellaId = some .provisional := by
  have hreplay : (priceMachine.replay Machine.always priceMachine.init
      (approvePrices [proposePrices])).bind (fun state ↦
        (priceMachine.replay Machine.always state [.advance 0]).map
          fun later ↦ (priceView state, priceView later)) =
      some ((some .active, 1), (some .provisional, 1)) := by
    decide +kernel
  rcases Option.bind_eq_some_iff.mp hreplay with ⟨state, hstate, hrest⟩
  rcases Option.map_eq_some_iff.mp hrest with ⟨later, hlater, hviews⟩
  rcases Prod.mk.inj hviews with ⟨hview, hend⟩
  exact ⟨state, later, Machine.reachableFrom_replay _ hstate, Machine.reachableFrom_replay _ hlater,
    .inl (congrArg Prod.fst hview), congrArg Prod.fst hend⟩

end Deblob.Umbrella
