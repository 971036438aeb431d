import Deblob.Cold.PromoteResolve

/-!
# Observations after a promotion

Ingests and promotions one after the other. A promotion indexes the shapes that were recorded when
it read them, and its candidate is never promoted again. The aliases of the candidate stay, so a new
shape may still be routed to it; nothing will index that shape.
-/

namespace Deblob.Cold

open Core Lib Fingerprint Redis
open Deblob.Match (TagState publishStep)

inductive SequentialEvent where
  | ingest (call : IngestCall) (granted : Bool)
  | promote (policy : PromotionPolicy) (id : CandidateId) (nowMs : ℤ) (members : List String)
      (request : PromoteRequest)

variable (sha256 : Bytes → Digest)

/-- A promotion with no other call in between; its candidate is staged if it was published. -/
def promoteAlone (state : PipelineState) (policy : PromotionPolicy) (id : CandidateId) (nowMs : ℤ)
    (members : List String) (request : PromoteRequest) : Option PipelineState := do
  let started ← pipelineStep sha256 state (.promote policy id nowMs)
  let read ← pipelineStep sha256 started (.readVariants 0 members)
  let published ← pipelineStep sha256 read (.publish 0 request)
  if published.published.length = read.published.length then some published
  else pipelineStep sha256 published (.setState id .staged)

def sequentialMachine : Machine PipelineState SequentialEvent where
  init := (pipelineMachine sha256).init
  step state
    | .ingest call granted => pipelineStep sha256 state (.ingest call granted none)
    | .promote policy id nowMs members request =>
      promoteAlone sha256 state policy id nowMs members request

/-- The structural index finds a schema for the document's shape. -/
def indexHit (registry : RegistryStore) (node : Node) : Prop :=
  matchingMembers registry (concreteVariant sha256 node).1
    (.fromDigest (fingerprint sha256 (shapeOf node))) ≠ ∅

instance (registry : RegistryStore) (node : Node) : Decidable (indexHit sha256 registry node) :=
  inferInstanceAs (Decidable (_ ≠ _))

/-- The candidate can still be promoted. -/
def OpenCandidate (store : ColdStore) (id : CandidateId) : Prop :=
  stateOf store.evidence id = some .provisional

/-- Every document of this shape is answered with a schema. -/
def ResolvesKnown (tags : TagState) (node : Node) : Prop :=
  ∀ other, shapeOf other = shapeOf node → ∀ source,
    (∃ pick next, classifyNode sha256 tags source other true pick = some next) ∧
      ∀ pick next, classifyNode sha256 tags source other true pick = some next →
        ∃ known, next.history = tags.history ++
          [⟨(concreteVariant sha256 node).1, fingerprint sha256 (shapeOf node), .known known⟩]

/-- An observation is not stranded. -/
def Resolvable (state : PipelineState) (node : Node) (id : CandidateId) : Prop :=
  OpenCandidate state.cold id ∨ ResolvesKnown sha256 state.tags node

/-- An ingest is routed to no candidate yet, or to one that can be promoted, or the shape is
indexed. -/
def routesOpen (state : PipelineState) : SequentialEvent → Prop
  | .ingest call _ =>
    (∀ current ∈ stateOf state.cold.evidence (targetId sha256 state.cold call),
      current = .provisional) ∨ indexHit sha256 state.tags.registry call.node
  | .promote .. => True

instance (state : PipelineState) (event : SequentialEvent) :
    Decidable (routesOpen sha256 state event) :=
  match event with
  | .ingest call _ => inferInstanceAs (Decidable
      ((∀ current ∈ stateOf state.cold.evidence (targetId sha256 state.cold call),
        current = .provisional) ∨ indexHit sha256 state.tags.registry call.node))
  | .promote .. => inferInstanceAs (Decidable True)

/-- The pipeline's invariant; the matcher's cache is not used. -/
structure SequentialInv (state : PipelineState) : Prop where
  pipeline : PipelineInv sha256 state
  uncached : ∀ fp, state.tags.cache fp = none

/-- Every observation can be promoted or is indexed. -/
def KeptOpen (state : PipelineState) : Prop :=
  ∀ entry ∈ state.ingested, OpenCandidate state.cold entry.2 ∨
    indexHit sha256 state.tags.registry entry.1

variable {sha256} {state next : PipelineState} {event : SequentialEvent}

/-! ## One promotion -/

/-- What a promotion does: its candidate was provisional, and the publication is refused, or indexes
the shapes of the candidate's documents before the candidate is staged. -/
theorem promoteAlone_cases {policy : PromotionPolicy} {id : CandidateId} {nowMs : ℤ}
    {members : List String} {request : PromoteRequest}
    (hpromote : promoteAlone sha256 state policy id nowMs members request = some next) :
    next = state ∨ ∃ call : PublishCall, ∃ version registry evidence,
      publishScript state.tags.registry call = (.ok version, registry) ∧
        setStateScript state.cold.evidence id .staged = .ok evidence ∧
        next = { state with
          cold := { state.cold with evidence := indexState evidence id .staged }
          tags := publishStep state.tags call
          published := state.published ++ [(call.schemaId, documentsOf id state.ingested)] } := by
  rcases Option.bind_eq_some_iff.mp hpromote with ⟨started, hstarted, hrest⟩
  rcases Option.bind_eq_some_iff.mp hrest with ⟨read, hread, hrest⟩
  rcases Option.bind_eq_some_iff.mp hrest with ⟨published, hpublished, hlast⟩
  rcases Option.map_eq_some_iff.mp hstarted with ⟨promotion, hstart, rfl⟩
  obtain ⟨profile, rfl⟩ : ∃ profile, promotion = .reading id profile := by
    unfold startPromotion at hstart
    split at hstart
    · split_ifs at hstart
      exact ⟨_, (Option.some.inj hstart).symm⟩
    · cases hstart
  obtain ⟨-, hread⟩ := Option.ite_none_right_eq_some.mp hread
  obtain rfl := Option.some.inj hread
  dsimp only [pipelineStep] at hpublished
  obtain rfl := Option.some.inj hpublished
  generalize promotionCall sha256 id profile (getVariants members) request = call at hlast
  rcases publishScript_cases state.tags.registry call with
    ⟨error, herror⟩ | ⟨version, registry, hok, -⟩
  · left
    have htags : publishStep state.tags call = state.tags := by rw [publishStep, herror]
    simp only [herror, htags, List.append_nil, if_true, Option.some.injEq] at hlast
    exact hlast.symm
  · right
    simp only [hok, List.length_append, List.length_singleton, Nat.add_eq_left, one_ne_zero,
      if_false, pipelineStep] at hlast
    split at hlast
    · rename_i evidence hevidence
      exact ⟨call, version, registry, evidence, hok, hevidence, (Option.some.inj hlast).symm⟩
    · cases hlast

/-! ## What sequential runs keep -/

theorem cache_publishStep (tags : TagState) (call : PublishCall) :
    (publishStep tags call).cache = tags.cache := by
  unfold publishStep
  split <;> rfl

theorem SequentialInv.step (hinv : SequentialInv sha256 state)
    (hstep : (sequentialMachine sha256).step state event = some next) :
    SequentialInv sha256 next := by
  cases event with
  | ingest call granted =>
      cases hstep
      exact ⟨hinv.pipeline.ingest call granted none, hinv.uncached⟩
  | promote policy id nowMs members request =>
      constructor
      · rcases Option.bind_eq_some_iff.mp hstep with ⟨started, hstarted, hrest⟩
        rcases Option.bind_eq_some_iff.mp hrest with ⟨read, hread, hrest⟩
        rcases Option.bind_eq_some_iff.mp hrest with ⟨published, hpublished, hlast⟩
        have hfirst := pipelineInv_step hinv.pipeline
          (show matcherOnly state (.promote policy id nowMs) from trivial) hstarted
        have hsecond := pipelineInv_step hfirst
          (show matcherOnly started (.readVariants 0 members) from trivial) hread
        have hthird := pipelineInv_step hsecond
          (show matcherOnly read (.publish 0 request) from trivial) hpublished
        split_ifs at hlast
        · cases hlast
          exact hthird
        · exact pipelineInv_step hthird
            (show matcherOnly published (.setState id .staged) from trivial) hlast
      · rcases promoteAlone_cases hstep with rfl | ⟨call, version, registry, evidence, -, -, rfl⟩
        · exact hinv.uncached
        · dsimp only
          rw [cache_publishStep]
          exact hinv.uncached

theorem sequentialInv_init : SequentialInv sha256 (sequentialMachine sha256).init :=
  ⟨pipelineInv_init, fun _ ↦ rfl⟩

theorem sequentialInv_reachable {guard : PipelineState → SequentialEvent → Prop}
    (reached : (sequentialMachine sha256).Reachable guard state) : SequentialInv sha256 state :=
  reached.invariant sequentialInv_init fun _ _ _ hinv _ hstep ↦ hinv.step hstep

/-- What the index finds is found after a publication too. -/
theorem indexHit_published {store after : RegistryStore} {call : PublishCall} {version : ℕ}
    (hpublished : Published store call version after) {node : Node}
    (hhit : indexHit sha256 store node) : indexHit sha256 after node := by
  rcases Finset.nonempty_iff_ne_empty.mpr hhit with ⟨member, hmember⟩
  rcases Finset.mem_filter.mp hmember with ⟨hindex, hprefix⟩
  refine Finset.Nonempty.ne_empty ⟨member, Finset.mem_filter.mpr ⟨?_, hprefix⟩⟩
  exact (hpublished.index _ _).mpr (.inl hindex)

/-- A document of a published candidate is found by the index. -/
theorem PipelineInv.indexHit (hinv : PipelineInv sha256 state) {schema : SchemaId}
    {docs : List Node} (hpublished : (schema, docs) ∈ state.published) {doc : Node}
    (hdoc : doc ∈ docs) : indexHit sha256 state.tags.registry doc :=
  Finset.Nonempty.ne_empty ⟨_, mem_matchingMembers (hinv.published _ hpublished doc hdoc)⟩

theorem map_state_existingRecord (store : ColdStore) (call : IngestCall) :
    (existingRecord sha256 store call).map CandidateRecord.state =
      stateOf store.evidence (targetId sha256 store call) :=
  Option.map_map _ _ _

/-- The state of the ingested candidate afterwards is the one that was read, the others stay. -/
theorem openCandidate_ingested {call : IngestCall} {granted : Bool} {id : CandidateId}
    {isNew : Bool}
    (hingested : (ingest sha256 state.cold call granted none).1 = some (.ingested id isNew))
    (other : CandidateId) : OpenCandidate (ingest sha256 state.cold call granted none).2 other ↔
      if other = id then ∀ current ∈ stateOf state.cold.evidence id, current = .provisional
      else OpenCandidate state.cold other := by
  obtain rfl := (ingest_ingested hingested).1
  have htarget : (ingestRecord sha256 state.cold call).candidateId =
      targetId sha256 state.cold call := rfl
  have hstate : (ingestRecord sha256 state.cold call).state =
      (stateOf state.cold.evidence (targetId sha256 state.cold call)).getD .provisional := by
    rw [← map_state_existingRecord]
    rfl
  unfold OpenCandidate
  rw [evidence_ingested hingested, stateOf_upsertCandidate, htarget, hstate]
  split_ifs
  · cases stateOf state.cold.evidence (targetId sha256 state.cold call) <;> simp
  · rfl

theorem KeptOpen.ingest (hopen : KeptOpen sha256 state) {call : IngestCall} {granted : Bool}
    (hallowed : routesOpen sha256 state (.ingest call granted)) :
    KeptOpen sha256 { state with
      cold := (ingest sha256 state.cold call granted none).2
      ingested := state.ingested ++
        routedTo call.node (ingest sha256 state.cold call granted none).1 } := by
  intro entry hentry
  cases houtcome : (Cold.ingest sha256 state.cold call granted none).1 with
  | none => cases houtcome
  | some outcome =>
      cases outcome with
      | rateLimited =>
          have hold : entry ∈ state.ingested := by
            simpa only [houtcome, routedTo, List.append_nil] using hentry
          rw [ingest_rateLimited houtcome]
          exact hopen entry hold
      | ingested id isNew =>
          simp only [houtcome, routedTo, List.mem_append, List.mem_singleton] at hentry
          rw [openCandidate_ingested houtcome]
          rcases hentry with hold | rfl
          · refine (hopen entry hold).imp_left fun hbefore ↦ ?_
            split_ifs with hsame
            · subst hsame
              intro current hcurrent
              exact Option.some.inj (hcurrent.symm.trans hbefore)
            · exact hbefore
          · rw [if_pos rfl, (ingest_ingested houtcome).1]
            exact hallowed

theorem KeptOpen.promote (hopen : KeptOpen sha256 state) (hinv : SequentialInv sha256 state)
    {policy : PromotionPolicy} {id : CandidateId} {nowMs : ℤ} {members : List String}
    {request : PromoteRequest}
    (hstep : (sequentialMachine sha256).step state (.promote policy id nowMs members request) =
      some next) : KeptOpen sha256 next := by
  have hnext := (hinv.step hstep).pipeline
  rcases promoteAlone_cases hstep with rfl | ⟨call, version, registry, evidence, hok, hstaged, rfl⟩
  · exact hopen
  · intro entry hentry
    by_cases hid : entry.2 = id
    · right
      apply hnext.indexHit (List.mem_append_right _ (List.mem_singleton_self _))
      exact List.mem_map.mpr ⟨entry, List.mem_filter.mpr ⟨hentry, decide_eq_true hid⟩, rfl⟩
    · refine (hopen entry hentry).imp (fun hbefore ↦ ?_) fun hhit ↦ ?_
      · unfold OpenCandidate
        rw [stateOf_indexState, (setStateScript_ok hstaged).2.2.2, if_neg hid]
        exact hbefore
      · rcases publishScript_cases state.tags.registry call with
          ⟨error, herror⟩ | ⟨_, _, hsuccess, hpublished⟩
        · rw [herror] at hok
          cases hok
        · rw [hsuccess] at hok
          cases hok
          have hregistry : (publishStep state.tags call).registry = registry := by
            rw [publishStep, hsuccess]
          dsimp only
          rw [hregistry]
          exact indexHit_published hpublished hhit

theorem keptOpen_reachable
    (reached : (sequentialMachine sha256).Reachable (routesOpen sha256) state) :
    KeptOpen sha256 state := by
  have hboth : SequentialInv sha256 state ∧ KeptOpen sha256 state := by
    induction reached with
    | refl => exact ⟨sequentialInv_init, nofun⟩
    | @step _ _ event _ hallowed hstep ih =>
        refine ⟨ih.1.step hstep, ?_⟩
        cases event with
        | ingest call granted =>
            cases hstep
            exact ih.2.ingest hallowed
        | promote policy id nowMs members request => exact ih.2.promote ih.1 hstep
  exact hboth.2

/-! ## What the matcher answers -/

/-- Without a cached answer the matcher answers with a schema exactly if the index has one. -/
theorem SequentialInv.resolvesKnown_iff (hinv : SequentialInv sha256 state) (node : Node) :
    ResolvesKnown sha256 state.tags node ↔ indexHit sha256 state.tags.registry node := by
  let fp := fingerprint sha256 (shapeOf node)
  let bucket := (concreteVariant sha256 node).1
  constructor
  · intro hknown hempty
    -- the answer for an empty scan is provisional, whatever the scan would pick
    have hanswer : classifyNode sha256 state.tags "" node true "" = some (state.tags.answer bucket
        fp (.provisional (.fromSourceAndDigest sha256 "" fp))) := by
      simp only [classifyNode, Match.classify, hinv.uncached, Bool.not_true, Bool.false_eq_true,
        if_false, if_pos hempty]
      rfl
    rcases (hknown node rfl "").2 "" _ hanswer with ⟨known, hhistory⟩
    have hlast := List.append_cancel_left hhistory
    simp only [List.cons.injEq, Match.Answer.mk.injEq, reduceCtorEq, and_false, false_and] at hlast
  · intro hhit other hshape source
    have hvariant : concreteVariant sha256 other = concreteVariant sha256 node := by
      rw [concreteVariant, concreteVariant, hshape]
    have hclassify (pick : String) : classifyNode sha256 state.tags source other true pick =
        if pick ∈ matchingMembers state.tags.registry bucket (.fromDigest fp) then
          (memberSchema pick).elim (some (state.tags.answer bucket fp .unresolved)) fun known ↦
            some { state.tags.answer bucket fp (.known known) with
              fills := state.tags.fills ++ [(fp, known)] }
        else none := by
      simp only [classifyNode, Match.classify, hvariant, hshape, hinv.uncached, Bool.not_true,
        Bool.false_eq_true, if_false, if_neg hhit]
      cases memberSchema pick <;> rfl
    constructor
    · rcases Finset.nonempty_iff_ne_empty.mpr hhit with ⟨pick, hpick⟩
      rcases hinv.pipeline.matching hpick with ⟨known, hschema, -⟩
      apply Exists.intro pick
      rw [hclassify, if_pos hpick, hschema]
      exact ⟨_, rfl⟩
    · intro pick next hstep
      rw [hclassify] at hstep
      obtain ⟨hpick, hstep⟩ := Option.ite_none_right_eq_some.mp hstep
      rcases hinv.pipeline.matching hpick with ⟨known, hschema, -⟩
      rw [hschema] at hstep
      cases hstep
      exact ⟨known, rfl⟩

def ingestOrders (keys : List String) : IngestCall :=
  ⟨.fromSourceAndDigest ordersSha256 "orders" (fingerprint ordersSha256 (shapeOf (numbers keys))),
    numbers keys, "orders", 0⟩

/-- `{"a":1}` is ingested and promoted. -/
def promoteFirst : List SequentialEvent :=
  [.ingest (ingestOrders ["a"]) true,
    .promote ⟨1, 0⟩ promotedA 0 [encodeVariant (concreteVariant ordersSha256 (numbers ["a"]))]
      ⟨⟨"fam-1"⟩, "\x7b\x7d", "admin", "reviewed", "0"⟩]

end Deblob.Cold
