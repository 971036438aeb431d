import Deblob.Cold.GeneralizedSummary
import Deblob.Cold.Ingest
import Deblob.Lib.Pending
import Deblob.Match.TagStability

/-!
# From promoted candidates to known tags

The cold lane records the concrete shape of every observation, a promotion replays the recorded
shapes into the structural index, and the matcher looks up the shape of a message. The machine here
interleaves ingests, the steps of any number of promotions, and the matcher. The two sides derive a
bucket and a fingerprint from the shape alone, so a document that was ingested before the promotion
read the variants is found under the promoted schema.
-/

namespace Deblob.Cold

open Core Lib Fingerprint Redis
open Deblob.Monoid (Profile FieldNode generalizer)
open Deblob.Match (TagState TagEvent Answer classify publishStep tagStep)

/-! ## Promotions -/

/-- What the caller of a promotion and the clock contribute to the publication; `schemaJson` is the
serialized record. -/
structure PromoteRequest where
  family : FamilyId
  schemaJson : String
  actor : String
  reason : String
  nowMs : String

/-- The publication of a candidate. -/
def promotionCall (sha256 : Bytes → Digest) (id : CandidateId) (profile : Profile)
    (variants : List (BucketKey × String)) (request : PromoteRequest) : PublishCall where
  schemaJson := request.schemaJson
  canonical := (String.fromUTF8? ⟨profile.generalizedCanonicalJson.toArray⟩).getD ""
  canonicalizer := generalizer
  familyId := request.family
  schemaId := .fromDigest (profile.generalizedFingerprint sha256)
  aliasFrom := id
  bucketKey := bucketOf sha256 (generalizedShapeSummary profile)
  variants := variants
  actor := request.actor
  reason := request.reason
  nowMs := request.nowMs

/-- Where a promotion stands, with what it has read. -/
inductive Promotion where
  | reading (id : CandidateId) (profile : Profile)
  /-- `docs` are the documents that were ingested when the variants were read. -/
  | publishing (id : CandidateId) (profile : Profile) (variants : List (BucketKey × String))
      (docs : List Node)

/-- Only a provisional candidate that meets the policy is promoted. -/
def startPromotion (policy : PromotionPolicy) (store : ColdStore) (id : CandidateId) (nowMs : ℤ) :
    Option Promotion :=
  match getCandidate store.evidence id with
  | some record =>
    if record.state = .provisional && policy.check record nowMs then
      some (.reading id record.profile)
    else none
  | none => none

/-! ## The pipeline -/

structure PipelineState where
  cold : ColdStore
  tags : TagState
  promotions : List Promotion
  /-- The ingested documents, with the candidate each was routed to. -/
  ingested : List (Node × CandidateId)
  /-- The published schemas, with the documents their promotion covers. -/
  published : List (SchemaId × List Node)

inductive PipelineEvent where
  | ingest (call : IngestCall) (granted : Bool) (failure : Option ℕ)
  | promote (policy : PromotionPolicy) (id : CandidateId) (nowMs : ℤ)
  | readVariants (position : ℕ) (members : List String)
  | publish (position : ℕ) (request : PromoteRequest)
  | setState (id : CandidateId) (target : CandidateState)
  | tag (event : TagEvent)

def documentsOf (id : CandidateId) (ingested : List (Node × CandidateId)) : List Node :=
  (ingested.filter fun entry ↦ entry.2 = id).map Prod.fst

variable (sha256 : Bytes → Digest)

/-- `SMEMBERS` returns the members of the set in any order. -/
def readVariantsStep (state : PipelineState) (position : ℕ) (members : List String) :
    Option PipelineState :=
  match state.promotions[position]? with
  | some (.reading id profile) =>
    if members.toFinset = state.cold.variants id then
      some { state with
        promotions := replaceAt state.promotions position
          (some (.publishing id profile (getVariants members) (documentsOf id state.ingested))) }
    else none
  | _ => none

/-- The script publishes the schema or reports an error; either way the promotion is over. -/
def publishPromotion (state : PipelineState) (position : ℕ) (request : PromoteRequest) :
    Option PipelineState :=
  match state.promotions[position]? with
  | some (.publishing id profile variants docs) =>
    let call := promotionCall sha256 id profile variants request
    let published := match (publishScript state.tags.registry call).1 with
      | .ok _ => [(call.schemaId, docs)]
      | .error _ => []
    some { state with
      tags := publishStep state.tags call
      promotions := replaceAt state.promotions position none
      published := state.published ++ published }
  | _ => none

def pipelineStep (state : PipelineState) : PipelineEvent → Option PipelineState
  | .ingest call granted failure =>
    let result := ingest sha256 state.cold call granted failure
    some { state with
      cold := result.2, ingested := state.ingested ++ routedTo call.node result.1 }
  | .promote policy id nowMs =>
    (startPromotion policy state.cold id nowMs).map fun promotion ↦
      { state with promotions := promotion :: state.promotions }
  | .readVariants position members => readVariantsStep state position members
  | .publish position request => publishPromotion sha256 state position request
  | .setState id target =>
    match setStateScript state.cold.evidence id target with
    | .ok evidence => some { state with
        cold := { state.cold with evidence := indexState evidence id target } }
    | .error _ => none
  | .tag event => (tagStep sha256 state.tags event).map fun tags ↦ { state with tags }

def pipelineMachine : Machine PipelineState PipelineEvent where
  init := ⟨.empty, ⟨.empty, ∅, fun _ ↦ none, [], [], []⟩, [], [], []⟩
  step := pipelineStep sha256

/-- Schemas are published by promotions only, and the index is not rebuilt. -/
def matcherOnly : PipelineState → PipelineEvent → Prop
  | _, .tag (.classify ..) | _, .tag (.fill _) | _, .tag (.evict _) => True
  | _, .tag _ => False
  | _, _ => True

/-- The classification of a parsed document. -/
def classifyNode (tags : TagState) (source : String) (node : Node) (available : Bool)
    (pick : String) : Option TagState :=
  classify sha256 tags (concreteVariant sha256 node).1 (fingerprint sha256 (shapeOf node)) source
    available pick

/-- What a promotion that has read its variants is about to publish. -/
def Promotion.covers : Promotion → Prop
  | .reading .. => True
  | .publishing _ _ variants docs =>
    (∀ variant ∈ variants, ∃ node, variant = concreteVariant sha256 node) ∧
      ∀ doc ∈ docs, concreteVariant sha256 doc ∈ variants

/-- A fingerprint is indexed under a schema, in some bucket. -/
def IndexedUnder (registry : RegistryStore) (fp : Digest) (schema : SchemaId) : Prop :=
  ∃ bucket, variantMember (digestBody fp) schema ∈ registry.index bucket

/-- What holds between the recorded variants, the promotions, the index and the cache. -/
structure PipelineInv (state : PipelineState) : Prop where
  variants : ∀ id, ∀ member ∈ state.cold.variants id,
    ∃ node, member = encodeVariant (concreteVariant sha256 node)
  ingested : ∀ entry ∈ state.ingested,
    encodeVariant (concreteVariant sha256 entry.1) ∈ state.cold.variants entry.2
  promotions : ∀ promotion ∈ state.promotions, promotion.covers sha256
  published : ∀ entry ∈ state.published, ∀ doc ∈ entry.2,
    variantMember (concreteVariant sha256 doc).2 entry.1 ∈
      state.tags.registry.index (concreteVariant sha256 doc).1
  indexed : ∀ bucket, ∀ member ∈ state.tags.registry.index bucket,
    ∃ text, ∃ entry ∈ state.published, '=' ∉ text.toList ∧ member = variantMember text entry.1
  cached : ∀ fp known, state.tags.cache fp = some known →
    IndexedUnder state.tags.registry fp known
  filling : ∀ fill ∈ state.tags.fills, IndexedUnder state.tags.registry fill.1 fill.2

section

variable {sha256} {state : PipelineState}

/-! ### Ingests and variants -/

theorem PipelineInv.ingest (hinv : PipelineInv sha256 state) (call : IngestCall) (granted : Bool)
    (failure : Option ℕ) : PipelineInv sha256 { state with
      cold := (ingest sha256 state.cold call granted failure).2
      ingested := state.ingested ++
        routedTo call.node (ingest sha256 state.cold call granted failure).1 } := by
  constructor
  case variants =>
    intro id member hmember
    rcases (variants_ingest failure id).2 member hmember with hold | heq
    · exact hinv.variants id member hold
    · exact ⟨call.node, heq⟩
  case ingested =>
    intro entry hentry
    rcases List.mem_append.mp hentry with hold | hnew
    · exact (variants_ingest failure entry.2).1 (hinv.ingested entry hold)
    · cases houtcome : (Cold.ingest sha256 state.cold call granted failure).1 with
      | none =>
          rw [houtcome] at hnew
          cases hnew
      | some outcome =>
          cases outcome with
          | rateLimited =>
              rw [houtcome] at hnew
              cases hnew
          | ingested id isNew =>
              rw [houtcome] at hnew
              rcases List.mem_singleton.mp hnew with rfl
              rcases ingest_ingested houtcome with ⟨rfl, hstore⟩
              rw [hstore, applyWrites_cons, variants_laterWrites]
              exact KeyedSets.mem_sadd.mpr (.inl ⟨rfl, rfl⟩)
  case promotions => exact hinv.promotions
  case published => exact hinv.published
  case indexed => exact hinv.indexed
  case cached => exact hinv.cached
  case filling => exact hinv.filling

/-- What `SMEMBERS` returns decodes to the shapes of the ingested documents. -/
theorem covers_of_members (hinv : PipelineInv sha256 state) {id : CandidateId}
    {profile : Profile} {members : List String}
    (hmembers : members.toFinset = state.cold.variants id) :
    (Promotion.publishing id profile (getVariants members)
      (documentsOf id state.ingested)).covers sha256 := by
  constructor
  · intro variant hvariant
    rcases List.mem_filterMap.mp hvariant with ⟨member, hmember, hdecode⟩
    rw [← List.mem_toFinset, hmembers] at hmember
    rcases hinv.variants id member hmember with ⟨node, rfl⟩
    rw [decodeVariant_encodeVariant] at hdecode
    exact ⟨node, (Option.some.inj hdecode).symm⟩
  · intro doc hdoc
    rcases List.mem_map.mp hdoc with ⟨entry, hentry, rfl⟩
    rw [List.mem_filter, decide_eq_true_eq] at hentry
    have hmember := hinv.ingested entry hentry.1
    rw [hentry.2, ← hmembers, List.mem_toFinset] at hmember
    exact List.mem_filterMap.mpr ⟨_, hmember, decodeVariant_encodeVariant _⟩

/-- Other promotions may run as long as each covers what it promotes. -/
theorem PipelineInv.repromote (hinv : PipelineInv sha256 state) {promotions : List Promotion}
    (hpromotions : ∀ promotion ∈ promotions, promotion.covers sha256) :
    PipelineInv sha256 { state with promotions := promotions } where
  variants := hinv.variants
  ingested := hinv.ingested
  promotions := hpromotions
  published := hinv.published
  indexed := hinv.indexed
  cached := hinv.cached
  filling := hinv.filling

theorem PipelineInv.replace (hinv : PipelineInv sha256 state) (position : ℕ)
    {next : Option Promotion} (hnext : ∀ promotion ∈ next, promotion.covers sha256) :
    PipelineInv sha256 { state with
      promotions := replaceAt state.promotions position next } := by
  apply hinv.repromote
  intro promotion hpromotion
  rcases of_mem_replaceAt hpromotion with hnew | hold
  · exact hnext promotion hnew
  · exact hinv.promotions promotion hold

/-! ### Publications -/

theorem PipelineInv.publish (hinv : PipelineInv sha256 state) {id : CandidateId}
    {profile : Profile} {variants : List (BucketKey × String)} {docs : List Node}
    (hcovers : (Promotion.publishing id profile variants docs).covers sha256)
    (request : PromoteRequest) :
    let call := promotionCall sha256 id profile variants request
    PipelineInv sha256 { state with
      tags := publishStep state.tags call
      published := state.published ++ match (publishScript state.tags.registry call).1 with
        | .ok _ => [(call.schemaId, docs)]
        | .error _ => [] } := by
  intro call
  rcases publishScript_cases state.tags.registry call with
    ⟨err, herror⟩ | ⟨version, next, hok, hnext⟩
  · have htags : publishStep state.tags call = state.tags := by
      unfold publishStep
      rw [herror]
    simp only [htags, herror, List.append_nil]
    exact hinv
  · have htags : publishStep state.tags call = { state.tags with
        registry := next, schemaKeys := insert call.schemaId state.tags.schemaKeys } := by
      unfold publishStep
      rw [hok]
    have hkept {bucket : BucketKey} {member : String}
        (hmember : member ∈ state.tags.registry.index bucket) : member ∈ next.index bucket :=
      (hnext.index bucket member).mpr (.inl hmember)
    have hself : (call.schemaId, docs) ∈ state.published ++ [(call.schemaId, docs)] :=
      List.mem_append_right _ List.mem_cons_self
    simp only [htags, hok]
    constructor
    case variants => exact hinv.variants
    case ingested => exact hinv.ingested
    case promotions => exact hinv.promotions
    case published =>
      intro entry hentry doc hdoc
      rcases List.mem_append.mp hentry with hold | hnew
      · exact hkept (hinv.published entry hold doc hdoc)
      · rcases List.mem_singleton.mp hnew with rfl
        apply (hnext.index _ _).mpr
        exact .inr (.inr ⟨_, hcovers.2 doc hdoc, rfl, rfl⟩)
    case indexed =>
      intro bucket member hmember
      rcases (hnext.index bucket member).mp hmember with
        hold | ⟨-, heq⟩ | ⟨variant, hvariant, -, heq⟩
      · rcases hinv.indexed bucket member hold with ⟨text, entry, hentry, hmember⟩
        exact ⟨text, entry, List.mem_append_left _ hentry, hmember⟩
      · exact ⟨call.schemaId.body, (call.schemaId, docs), hself, call.schemaId.eq_notMem_body, heq⟩
      · rcases hcovers.1 variant hvariant with ⟨node, rfl⟩
        exact ⟨_, (call.schemaId, docs), hself, eq_notMem_digestBody _, heq⟩
    case cached =>
      intro fp known hcache
      rcases hinv.cached fp known hcache with ⟨bucket, hmember⟩
      exact ⟨bucket, hkept hmember⟩
    case filling =>
      intro fill hfill
      rcases hinv.filling fill hfill with ⟨bucket, hmember⟩
      exact ⟨bucket, hkept hmember⟩

/-! ### Lookups -/

/-- A member that a scan can return points at a schema the fingerprint is indexed under. -/
theorem PipelineInv.matching (hinv : PipelineInv sha256 state) {bucket : BucketKey} {fp : Digest}
    {pick : String}
    (hpick : pick ∈ matchingMembers state.tags.registry bucket (.fromDigest fp)) :
    ∃ id, memberSchema pick = some id ∧
      variantMember (digestBody fp) id ∈ state.tags.registry.index bucket := by
  rcases Finset.mem_filter.mp hpick with ⟨hindex, hbody⟩
  rcases hinv.indexed bucket pick hindex with ⟨text, entry, -, htext, rfl⟩
  have heq := (prefix_variantMember htext (.fromDigest fp)).mp (of_decide_eq_true hbody)
  rw [DigestId.body_fromDigest] at heq
  exact ⟨entry.1, memberSchema_variantMember htext, heq ▸ hindex⟩

/-- A fingerprint that is indexed in a bucket is found there. -/
theorem mem_matchingMembers {registry : RegistryStore} {bucket : BucketKey} {fp : Digest}
    {id : SchemaId} (hmember : variantMember (digestBody fp) id ∈ registry.index bucket) :
    variantMember (digestBody fp) id ∈ matchingMembers registry bucket (.fromDigest fp) := by
  apply Finset.mem_filter.mpr
  constructor
  · exact hmember
  · apply decide_eq_true
    rw [prefix_variantMember (eq_notMem_digestBody fp), DigestId.body_fromDigest]

/-- The cache may change as long as it holds what is indexed. -/
theorem PipelineInv.retag (hinv : PipelineInv sha256 state) {tags : TagState}
    (hregistry : tags.registry = state.tags.registry)
    (hcached : ∀ fp known, tags.cache fp = some known →
      IndexedUnder state.tags.registry fp known)
    (hfilling : ∀ fill ∈ tags.fills, IndexedUnder state.tags.registry fill.1 fill.2) :
    PipelineInv sha256 { state with tags := tags } where
  variants := hinv.variants
  ingested := hinv.ingested
  promotions := hinv.promotions
  published := by simpa only [hregistry] using hinv.published
  indexed := by simpa only [hregistry] using hinv.indexed
  cached := by simpa only [hregistry] using hcached
  filling := by simpa only [hregistry] using hfilling

/-- A lookup changes neither the index nor the cache, and fills the cache only with what is
indexed. -/
theorem PipelineInv.classify (hinv : PipelineInv sha256 state) {bucket : BucketKey} {fp : Digest}
    {source : String} {available : Bool} {pick : String} {next : TagState}
    (hstep : Match.classify sha256 state.tags bucket fp source available pick = some next) :
    PipelineInv sha256 { state with tags := next } := by
  have hframe : next.registry = state.tags.registry ∧ next.cache = state.tags.cache ∧
      ∀ fill ∈ next.fills, fill ∈ state.tags.fills ∨
        IndexedUnder state.tags.registry fill.1 fill.2 := by
    unfold Match.classify at hstep
    cases hcache : state.tags.cache fp with
    | some known =>
        simp only [hcache, Option.some.injEq] at hstep
        subst hstep
        exact ⟨rfl, rfl, fun fill hfill ↦ .inl hfill⟩
    | none =>
        simp only [hcache] at hstep
        split_ifs at hstep with havailable hempty hpick
        · cases hstep
          exact ⟨rfl, rfl, fun fill hfill ↦ .inl hfill⟩
        · cases hstep
          exact ⟨rfl, rfl, fun fill hfill ↦ .inl hfill⟩
        · rcases hinv.matching hpick with ⟨id, hschema, hmember⟩
          simp only [hschema, Option.some.injEq] at hstep
          subst hstep
          constructor
          · rfl
          constructor
          · rfl
          · intro fill hfill
            rcases List.mem_append.mp hfill with hold | hnew
            · exact .inl hold
            · rcases List.mem_singleton.mp hnew with rfl
              exact .inr ⟨bucket, hmember⟩
  rcases hframe with ⟨hregistry, hcache, hfills⟩
  apply hinv.retag hregistry
  · intro other known hcached
    rw [hcache] at hcached
    exact hinv.cached other known hcached
  · intro fill hfill
    rcases hfills fill hfill with hold | hnew
    · exact hinv.filling fill hold
    · exact hnew

theorem PipelineInv.fill (hinv : PipelineInv sha256 state) {position : ℕ} {fp : Digest}
    {known : SchemaId} (hposition : state.tags.fills[position]? = some (fp, known)) :
    PipelineInv sha256 { state with tags := { state.tags with
      cache := Function.update state.tags.cache fp (some known)
      fills := state.tags.fills.eraseIdx position } } := by
  refine hinv.retag (by rfl) ?_ ?_
  · intro other found hcache
    dsimp only at hcache
    by_cases hother : other = fp
    · rw [hother, Function.update_self] at hcache
      rcases Option.some.inj hcache with rfl
      rw [hother]
      exact hinv.filling (fp, known) (List.mem_of_getElem? hposition)
    · rw [Function.update_of_ne hother] at hcache
      exact hinv.cached other found hcache
  · intro fill hfill
    exact hinv.filling fill (List.mem_of_mem_eraseIdx hfill)

theorem PipelineInv.evict (hinv : PipelineInv sha256 state) (fp : Digest) :
    PipelineInv sha256 { state with tags := { state.tags with
      cache := Function.update state.tags.cache fp none } } := by
  refine hinv.retag (by rfl) ?_ ?_
  · intro other found hcache
    dsimp only at hcache
    by_cases hother : other = fp
    · rw [hother, Function.update_self] at hcache
      cases hcache
    · rw [Function.update_of_ne hother] at hcache
      exact hinv.cached other found hcache
  · exact hinv.filling

/-! ### Runs -/

theorem pipelineInv_step (hinv : PipelineInv sha256 state) {event : PipelineEvent}
    (hallowed : matcherOnly state event) {next : PipelineState}
    (hstep : pipelineStep sha256 state event = some next) : PipelineInv sha256 next := by
  cases event with
  | ingest call granted failure =>
      cases hstep
      exact hinv.ingest call granted failure
  | promote policy id nowMs =>
      rcases Option.map_eq_some_iff.mp hstep with ⟨promotion, hstart, rfl⟩
      have hcovers : promotion.covers sha256 := by
        unfold startPromotion at hstart
        split at hstart
        · split_ifs at hstart
          cases hstart
          trivial
        · cases hstart
      exact hinv.repromote (List.forall_mem_cons.mpr ⟨hcovers, hinv.promotions⟩)
  | readVariants position members =>
      simp only [pipelineStep, readVariantsStep] at hstep
      split at hstep
      · split_ifs at hstep with hmembers
        cases hstep
        apply hinv.replace
        intro promotion hpromotion
        rcases Option.mem_some_iff.mp hpromotion with rfl
        exact covers_of_members hinv hmembers
      · cases hstep
  | publish position request =>
      simp only [pipelineStep, publishPromotion] at hstep
      split at hstep
      · rename_i id profile variants docs hposition
        cases hstep
        have hcovers := hinv.promotions _ (List.mem_of_getElem? hposition)
        exact (hinv.publish hcovers request).replace position fun _ hnone ↦ nomatch hnone
      · cases hstep
  | setState id target =>
      simp only [pipelineStep] at hstep
      split at hstep
      · cases hstep
        constructor
        case variants => exact hinv.variants
        case ingested => exact hinv.ingested
        case promotions => exact hinv.promotions
        case published => exact hinv.published
        case indexed => exact hinv.indexed
        case cached => exact hinv.cached
        case filling => exact hinv.filling
      · cases hstep
  | tag event =>
      rcases Option.map_eq_some_iff.mp hstep with ⟨tags, htags, rfl⟩
      cases event with
      | classify bucket fp source available pick => exact hinv.classify htags
      | fill position =>
          rcases Option.map_eq_some_iff.mp htags with ⟨⟨fp, known⟩, hposition, rfl⟩
          exact hinv.fill hposition
      | evict fp =>
          cases htags
          exact hinv.evict fp
      | publish | rebuildStart | rebuildDelete | rebuildScan | rebuildStep => cases hallowed

theorem pipelineInv_init : PipelineInv sha256 (pipelineMachine sha256).init := by
  constructor
  case variants => exact fun id member hmember ↦ absurd hmember (Finset.notMem_empty member)
  case ingested => exact fun entry hentry ↦ nomatch hentry
  case promotions => exact fun promotion hpromotion ↦ nomatch hpromotion
  case published => exact fun entry hentry ↦ nomatch hentry
  case indexed => exact fun bucket member hmember ↦ absurd hmember (Finset.notMem_empty member)
  case cached => exact fun fp known hcache ↦ nomatch hcache
  case filling => exact fun fill hfill ↦ nomatch hfill

theorem pipelineInv_reachable (reached : (pipelineMachine sha256).Reachable matcherOnly state) :
    PipelineInv sha256 state := by
  apply reached.invariant pipelineInv_init
  exact fun state event next hinv hallowed hstep ↦ pipelineInv_step hinv hallowed hstep

/-- Only published schemas are indexed. -/
theorem PipelineInv.published_of_indexed (hinv : PipelineInv sha256 state) {fp : Digest}
    {schema : SchemaId} (hindexed : IndexedUnder state.tags.registry fp schema) :
    ∃ entry ∈ state.published, entry.1 = schema := by
  rcases hindexed with ⟨bucket, hmember⟩
  rcases hinv.indexed bucket _ hmember with ⟨text, entry, hentry, htext, heq⟩
  have hleft : memberSchema (variantMember (digestBody fp) schema) = some schema :=
    memberSchema_variantMember (eq_notMem_digestBody fp)
  have hright : memberSchema (variantMember text entry.1) = some entry.1 :=
    memberSchema_variantMember htext
  rw [heq] at hleft
  exact ⟨entry, hentry, Option.some.inj (hright.symm.trans hleft)⟩

/-! ### The answer for a promoted shape -/

section

variable {bucket : BucketKey} {fp : Digest} {schema : SchemaId} {source pick : String}
  {next : TagState}

/-- No schema but this one is indexed under the fingerprint. -/
def OnlyIndexedUnder (registry : RegistryStore) (fp : Digest) (schema : SchemaId) : Prop :=
  ∀ other, IndexedUnder registry fp other → other = schema

/-- A cached fingerprint is answered without the registry. -/
theorem classify_of_cached {tags : TagState} {available : Bool}
    (hcache : tags.cache fp = some schema) :
    Match.classify sha256 tags bucket fp source available pick =
      some (tags.answer bucket fp (.known schema)) := by
  unfold Match.classify
  rw [hcache]

/-- The cache agrees with the only indexed schema. -/
theorem PipelineInv.classify_cached (hinv : PipelineInv sha256 state)
    (honly : OnlyIndexedUnder state.tags.registry fp schema)
    (hcached : (state.tags.cache fp).isSome) (available : Bool) :
    Match.classify sha256 state.tags bucket fp source available pick =
      some (state.tags.answer bucket fp (.known schema)) := by
  rcases Option.isSome_iff_exists.mp hcached with ⟨known, hcache⟩
  rcases honly known (hinv.cached fp known hcache) with rfl
  exact classify_of_cached hcache

/-- A fingerprint that is not cached is looked up, and the cache will be filled. -/
theorem PipelineInv.classify_uncached (hinv : PipelineInv sha256 state)
    (honly : OnlyIndexedUnder state.tags.registry fp schema)
    (hmember : variantMember (digestBody fp) schema ∈ state.tags.registry.index bucket)
    (hcache : state.tags.cache fp = none)
    (hstep : Match.classify sha256 state.tags bucket fp source true pick = some next) :
    next = { state.tags.answer bucket fp (.known schema) with
      fills := state.tags.fills ++ [(fp, schema)] } := by
  unfold Match.classify at hstep
  have hfound := mem_matchingMembers hmember
  simp only [hcache, Bool.not_true, Bool.false_eq_true, if_false] at hstep
  split_ifs at hstep with hempty hpick
  · rw [hempty] at hfound
    cases hfound
  · rcases hinv.matching hpick with ⟨known, hschema, hindexed⟩
    rcases honly known ⟨bucket, hindexed⟩ with rfl
    simp only [hschema, Option.some.injEq] at hstep
    exact hstep.symm

/-- The scan of the bucket has a member to return. -/
theorem classify_enabled
    (hmember : variantMember (digestBody fp) schema ∈ state.tags.registry.index bucket) :
    ∃ pick next, Match.classify sha256 state.tags bucket fp source true pick = some next := by
  have hfound := mem_matchingMembers hmember
  have hschema : memberSchema (variantMember (digestBody fp) schema) = some schema :=
    memberSchema_variantMember (eq_notMem_digestBody fp)
  apply Exists.intro (variantMember (digestBody fp) schema)
  unfold Match.classify
  cases state.tags.cache fp with
  | some known => exact ⟨_, rfl⟩
  | none =>
      simp only [Bool.not_true, Bool.false_eq_true, if_false, if_pos hfound, hschema]
      rw [if_neg]
      · exact ⟨_, rfl⟩
      · intro hempty
        rw [hempty] at hfound
        cases hfound

end

end

/-- Whatever the candidate's documents were, once it is promoted and no other schema is indexed
under the fingerprint, every document of an ingested document's shape is answered with the schema:
by the index, and then by the cache without the registry. -/
theorem promote_resolve (sha256 : Bytes → Digest) (state : PipelineState)
    (reached : (pipelineMachine sha256).Reachable matcherOnly state) (schema : SchemaId)
    (docs : List Node) (hpublished : (schema, docs) ∈ state.published) (doc node : Node)
    (hdoc : doc ∈ docs) (hshape : shapeOf node = shapeOf doc)
    (honly : OnlyIndexedUnder state.tags.registry (fingerprint sha256 (shapeOf node)) schema)
    (source : String) :
    let fp := fingerprint sha256 (shapeOf node)
    let bucket := (concreteVariant sha256 node).1
    (∃ pick next, classifyNode sha256 state.tags source node true pick = some next) ∧
      (∀ pick next, classifyNode sha256 state.tags source node true pick = some next →
        next.history = state.tags.history ++ [⟨bucket, fp, .known schema⟩] ∧
        (state.tags.cache fp = none → ∃ position filled,
          tagStep sha256 next (.fill position) = some filled ∧
          ∀ available pick, classifyNode sha256 filled source node available pick =
            some (filled.answer bucket fp (.known schema)))) ∧
      ((state.tags.cache fp).isSome → ∀ available pick,
        classifyNode sha256 state.tags source node available pick =
          some (state.tags.answer bucket fp (.known schema))) := by
  intro fp bucket
  have hinv := pipelineInv_reachable reached
  have hvariant : concreteVariant sha256 node = concreteVariant sha256 doc := by
    rw [concreteVariant, concreteVariant, hshape]
  have hmember : variantMember (digestBody fp) schema ∈ state.tags.registry.index bucket := by
    have hindexed := hinv.published _ hpublished doc hdoc
    rw [← hvariant] at hindexed
    exact hindexed
  constructor
  · exact classify_enabled hmember
  constructor
  · intro pick next hstep
    cases hcache : state.tags.cache fp with
    | some known =>
        have hanswer : classifyNode sha256 state.tags source node true pick =
            some (state.tags.answer bucket fp (.known schema)) :=
          hinv.classify_cached honly (Option.isSome_of_eq_some hcache) true
        rw [hanswer] at hstep
        cases hstep
        constructor
        · rfl
        · intro hnone
          cases hnone
    | none =>
        have hnext := hinv.classify_uncached honly hmember hcache hstep
        constructor
        · rw [hnext]
          rfl
        · intro _
          let filled : TagState := { next with
            cache := Function.update next.cache fp (some schema)
            fills := next.fills.eraseIdx state.tags.fills.length }
          have hposition : next.fills[state.tags.fills.length]? = some (fp, schema) := by
            rw [hnext]
            exact List.getElem?_concat_length
          have hfilled : tagStep sha256 next (.fill state.tags.fills.length) = some filled :=
            Option.map_eq_some_iff.mpr ⟨(fp, schema), hposition, rfl⟩
          have hcached : filled.cache fp = some schema := Function.update_self fp _ next.cache
          apply Exists.intro state.tags.fills.length
          apply Exists.intro filled
          constructor
          · exact hfilled
          · intro available pick
            exact classify_of_cached hcached
  · intro hcached available pick
    exact hinv.classify_cached honly hcached available

/-! ### `{"a":1}` ingested, promoted and published -/

instance (state : PipelineState) (event : PipelineEvent) : Decidable (matcherOnly state event) :=
  match event with
  | .tag (.classify ..) | .tag (.fill _) | .tag (.evict _) => .isTrue trivial
  | .tag (.publish _) | .tag .rebuildStart | .tag (.rebuildDelete ..) | .tag (.rebuildScan ..)
  | .tag (.rebuildStep _) => .isFalse fun hfalse ↦ hfalse
  | .ingest .. | .promote .. | .readVariants .. | .publish .. | .setState .. => .isTrue trivial

/-- The candidate of `{"a":1}` in the source `orders`. -/
def promotedA : CandidateId :=
  .fromSourceAndDigest ordersSha256 "orders" (fingerprint ordersSha256 (shapeOf (numbers ["a"])))

def promotionRun : List PipelineEvent :=
  [.ingest ⟨promotedA, numbers ["a"], "orders", 0⟩ true none, .promote ⟨1, 0⟩ promotedA 0,
    .readVariants 0 [encodeVariant (concreteVariant ordersSha256 (numbers ["a"]))],
    .publish 0 ⟨⟨"fam-1"⟩, "\x7b\x7d", "admin", "reviewed", "0"⟩]

/-- The schemas that were published, with the shapes of their documents. -/
def publishedView (state : PipelineState) : List (SchemaId × List Bytes) :=
  state.published.map fun entry ↦ (entry.1, entry.2.map fun doc ↦ canonicalBytes (shapeOf doc))

/-- The schema of `{"a":1}`. -/
def schemaA : SchemaId := .fromDigest ((Profile.fromNode (numbers ["a"])).generalizedFingerprint
  ordersSha256)

set_option maxRecDepth 4000 in
theorem promote_resolve_orders : ∃ state : PipelineState,
    (pipelineMachine ordersSha256).Reachable matcherOnly state ∧
      ∃ pick next, classifyNode ordersSha256 state.tags "orders" (numbers ["a"]) true pick =
        some next := by
  have hreplay : ((pipelineMachine ordersSha256).replay matcherOnly
      (pipelineMachine ordersSha256).init promotionRun).map publishedView =
        some [(schemaA, [canonicalBytes (shapeOf (numbers ["a"]))])] := by
    decide +kernel
  rcases Option.map_eq_some_iff.mp hreplay with ⟨state, hstate, hview⟩
  have hreached := Machine.reachableFrom_replay _ hstate
  rcases List.map_eq_singleton_iff.mp hview with ⟨⟨schema, docs⟩, hpublished, hentry⟩
  rcases List.map_eq_singleton_iff.mp (congrArg Prod.snd hentry) with ⟨doc, rfl, hbytes⟩
  have hshape : shapeOf (numbers ["a"]) = shapeOf doc := canonicalBytes_injective hbytes.symm
  have hinv := pipelineInv_reachable hreached
  have honly : OnlyIndexedUnder state.tags.registry
      (fingerprint ordersSha256 (shapeOf (numbers ["a"]))) schema := by
    intro other hindexed
    rcases hinv.published_of_indexed hindexed with ⟨entry, hmem, rfl⟩
    rw [hpublished] at hmem
    rw [List.mem_singleton.mp hmem]
  have hresolved := promote_resolve ordersSha256 state hreached schema [doc]
    (hpublished ▸ List.mem_singleton_self _) doc (numbers ["a"]) (List.mem_singleton_self _)
    hshape honly "orders"
  apply Exists.intro state
  constructor
  · exact hreached
  · exact hresolved.1

end Deblob.Cold
