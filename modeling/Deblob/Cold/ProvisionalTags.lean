import Deblob.Cold.PromoteResolve

/-!
# Resolving provisional tags

The matcher puts a candidate on the wire, and the cold lane may route the observation to another
one. The run records both beside the pipeline, and which candidate was promoted to which schema. A
publication sets the alias of the candidate that is promoted and of no other.
-/

namespace Deblob.Cold

open Core Lib Fingerprint Redis
open Deblob.Monoid (Profile)
open Deblob.Match (TagState TagEvent publishStep tagStep)

/-- `get_alias`. -/
def getAlias (registry : RegistryStore) (id : CandidateId) : Option SchemaId := registry.aliases id

/-- The pipeline, the tag and the candidate of each completed ingest, and the promotions. -/
structure WireRun where
  pipeline : PipelineState
  observed : List (CandidateId × CandidateId)
  promoted : List (CandidateId × SchemaId)

variable (sha256 : Bytes → Digest)

def observedBy (state : PipelineState) : PipelineEvent → List (CandidateId × CandidateId)
  | .ingest call granted failure =>
    match (ingest sha256 state.cold call granted failure).1 with
    | some (.ingested id _) => [(call.candId, id)]
    | _ => []
  | _ => []

def promotedBy (state : PipelineState) : PipelineEvent → List (CandidateId × SchemaId)
  | .publish position request =>
    match state.promotions[position]? with
    | some (.publishing id profile variants _) =>
      let call := promotionCall sha256 id profile variants request
      match (publishScript state.tags.registry call).1 with
      | .ok _ => [(id, call.schemaId)]
      | .error _ => []
    | _ => []
  | _ => []

def wireMachine : Machine WireRun PipelineEvent where
  init := ⟨(pipelineMachine sha256).init, [], []⟩
  step state event := (pipelineStep sha256 state.pipeline event).map fun next ↦
    ⟨next, state.observed ++ observedBy sha256 state.pipeline event,
      state.promoted ++ promotedBy sha256 state.pipeline event⟩

/-- An ingest is handed a message that the matcher tagged. No store call fails and no candidate is
rejected. -/
def tagged (state : WireRun) : PipelineEvent → Prop
  | .ingest call _ failure => failure = none ∧ ∃ answer ∈ state.pipeline.tags.history,
      answer.fp = fingerprint sha256 (shapeOf call.node) ∧ answer.ref = .provisional call.candId
  | .setState _ target => target ≠ .rejected
  | event => matcherOnly state.pipeline event

/-- The aliases are those of the promoted candidates, and what is ingested was tagged. -/
structure WireInv (state : WireRun) : Prop where
  aliases : ∀ id schema, getAlias state.pipeline.tags.registry id = some schema ↔
    (id, schema) ∈ state.promoted
  answered : ∀ entry ∈ state.observed, ∃ answer ∈ state.pipeline.tags.history,
    answer.ref = .provisional entry.1

variable {sha256} {state next : WireRun} {event : PipelineEvent}

/-- A publication sets one alias, which it found unset or set to the same schema. -/
theorem getAlias_published {store after : RegistryStore} {call : PublishCall} {version : ℕ}
    (hpublished : Published store call version after) (id : CandidateId) :
    getAlias after id =
      if id = call.aliasFrom then some call.schemaId else getAlias store id := by
  have haliases : getAlias after = Function.update store.aliases call.aliasFrom
      (some ((store.aliases call.aliasFrom).getD call.schemaId)) := hpublished.aliases
  rw [haliases]
  by_cases hid : id = call.aliasFrom
  · subst hid
    rw [if_pos rfl, Function.update_self]
    cases halias : store.aliases call.aliasFrom with
    | none => rfl
    | some schema => exact congrArg some (hpublished.aliasFree schema halias)
  · rw [if_neg hid, Function.update_of_ne hid]
    rfl

/-- A lookup changes nothing in the registry and only adds to the answers. -/
theorem frame_of_classify {tags after : TagState} {bucket : BucketKey} {fp : Digest}
    {source : String} {available : Bool} {pick : String}
    (hstep : Match.classify sha256 tags bucket fp source available pick = some after) :
    after.registry = tags.registry ∧ tags.history ⊆ after.history := by
  have hsubset (answer : Match.Answer) : tags.history ⊆ tags.history ++ [answer] :=
    List.subset_append_left _ _
  unfold Match.classify at hstep
  cases hcache : tags.cache fp with
  | some known =>
      simp only [hcache, Option.some.injEq] at hstep
      subst hstep
      exact ⟨rfl, hsubset _⟩
  | none =>
      simp only [hcache] at hstep
      split_ifs at hstep with havailable hempty hpick
      · cases hstep
        exact ⟨rfl, hsubset _⟩
      · cases hstep
        exact ⟨rfl, hsubset _⟩
      · cases hschema : memberSchema pick with
        | some known =>
            simp only [hschema, Option.some.injEq] at hstep
            subst hstep
            exact ⟨rfl, hsubset _⟩
        | none =>
            simp only [hschema, Option.some.injEq] at hstep
            subst hstep
            exact ⟨rfl, hsubset _⟩

/-- Only a publication writes the registry, and no answer is forgotten. -/
theorem frame_of_pipelineStep {pipeline after : PipelineState}
    (hmatcher : matcherOnly pipeline event)
    (hstep : pipelineStep sha256 pipeline event = some after) :
    pipeline.tags.history ⊆ after.tags.history ∧
      ((∀ position request, event ≠ .publish position request) →
        after.tags.registry = pipeline.tags.registry) := by
  cases event with
  | ingest call granted failure =>
      cases hstep
      exact ⟨List.Subset.refl _, fun _ ↦ rfl⟩
  | promote policy id nowMs =>
      rcases Option.map_eq_some_iff.mp hstep with ⟨promotion, -, rfl⟩
      exact ⟨List.Subset.refl _, fun _ ↦ rfl⟩
  | readVariants position members =>
      simp only [pipelineStep, readVariantsStep] at hstep
      split at hstep
      · split_ifs at hstep
        cases hstep
        exact ⟨List.Subset.refl _, fun _ ↦ rfl⟩
      · cases hstep
  | publish position request =>
      refine ⟨?_, fun hother ↦ absurd rfl (hother position request)⟩
      simp only [pipelineStep, publishPromotion] at hstep
      split at hstep
      · cases hstep
        dsimp only
        unfold publishStep
        split <;> exact List.Subset.refl _
      · cases hstep
  | setState id target =>
      simp only [pipelineStep] at hstep
      split at hstep
      · cases hstep
        exact ⟨List.Subset.refl _, fun _ ↦ rfl⟩
      · cases hstep
  | tag event =>
      rcases Option.map_eq_some_iff.mp hstep with ⟨tags, htags, rfl⟩
      cases event with
      | classify bucket fp source available pick =>
          rcases frame_of_classify htags with ⟨hregistry, hhistory⟩
          exact ⟨hhistory, fun _ ↦ hregistry⟩
      | fill position =>
          rcases Option.map_eq_some_iff.mp htags with ⟨⟨fp, known⟩, -, rfl⟩
          exact ⟨List.Subset.refl _, fun _ ↦ rfl⟩
      | evict fp =>
          cases htags
          exact ⟨List.Subset.refl _, fun _ ↦ rfl⟩
      | publish | rebuildStart | rebuildDelete | rebuildScan | rebuildStep => cases hmatcher

/-- A publication sets the alias of its candidate, and is recorded. -/
theorem aliases_publish {pipeline after : PipelineState}
    {promoted : List (CandidateId × SchemaId)}
    (haliases : ∀ id schema, getAlias pipeline.tags.registry id = some schema ↔
      (id, schema) ∈ promoted) {position : ℕ} {request : PromoteRequest}
    (hstep : publishPromotion sha256 pipeline position request = some after)
    (id : CandidateId) (schema : SchemaId) :
    getAlias after.tags.registry id = some schema ↔
      (id, schema) ∈ promoted ++ promotedBy sha256 pipeline (.publish position request) := by
  simp only [publishPromotion] at hstep
  split at hstep
  · rename_i candidate profile variants docs hposition
    cases hstep
    let call := promotionCall sha256 candidate profile variants request
    rcases publishScript_cases pipeline.tags.registry call with
      ⟨error, herror⟩ | ⟨version, registry, hok, hpublished⟩
    · have hregistry : (publishStep pipeline.tags call).registry = pipeline.tags.registry := by
        rw [publishStep, herror]
      have hpromoted : promotedBy sha256 pipeline (.publish position request) = [] := by
        simp only [promotedBy, hposition]
        rw [herror]
      rw [hpromoted, List.append_nil, ← haliases]
      exact iff_of_eq (congrArg (fun registry ↦ getAlias registry id = some schema) hregistry)
    · have hregistry : (publishStep pipeline.tags call).registry = registry := by
        rw [publishStep, hok]
      have hpromoted : promotedBy sha256 pipeline (.publish position request) =
          [(candidate, call.schemaId)] := by
        simp only [promotedBy, hposition]
        rw [hok]
      have hself : call.aliasFrom = candidate := rfl
      rw [hpromoted, hregistry, getAlias_published hpublished, hself, List.mem_append,
        List.mem_singleton, Prod.mk.injEq, ← haliases]
      by_cases hid : id = candidate
      · subst hid
        rw [if_pos rfl, Option.some.injEq]
        constructor
        · exact fun heq ↦ .inr ⟨rfl, heq.symm⟩
        · rintro (hbefore | ⟨-, heq⟩)
          · exact (hpublished.aliasFree schema hbefore).symm
          · exact heq.symm
      · rw [if_neg hid]
        exact ⟨.inl, fun hcases ↦ hcases.resolve_right fun hsame ↦ hid hsame.1⟩
  · cases hstep

theorem matcherOnly_of_tagged (htagged : tagged sha256 state event) :
    matcherOnly state.pipeline event := by
  cases event with
  | ingest | promote | readVariants | publish | setState => trivial
  | tag event => exact htagged

theorem WireInv.step (hinv : WireInv state) (htagged : tagged sha256 state event)
    (hstep : (wireMachine sha256).step state event = some next) : WireInv next := by
  rcases Option.map_eq_some_iff.mp hstep with ⟨after, hpipeline, rfl⟩
  rcases frame_of_pipelineStep (matcherOnly_of_tagged htagged) hpipeline with ⟨hhistory, hregistry⟩
  constructor
  · cases event with
    | publish position request =>
        exact aliases_publish hinv.aliases hpipeline
    | ingest | promote | readVariants | setState | tag =>
        simp only [promotedBy, List.append_nil]
        rw [hregistry nofun]
        exact hinv.aliases
  · intro entry hentry
    rcases List.mem_append.mp hentry with hold | hnew
    · rcases hinv.answered entry hold with ⟨answer, hanswer, href⟩
      exact ⟨answer, hhistory hanswer, href⟩
    · cases event with
      | ingest call granted failure =>
          rcases htagged.2 with ⟨answer, hanswer, -, href⟩
          simp only [observedBy] at hnew
          split at hnew
          · rw [List.mem_singleton.mp hnew]
            exact ⟨answer, hhistory hanswer, href⟩
          · cases hnew
      | promote | readVariants | publish | setState | tag => cases hnew

theorem wireInv_reachable (reached : (wireMachine sha256).Reachable (tagged sha256) state) :
    WireInv state := by
  have hinit : WireInv (wireMachine sha256).init := by
    constructor
    · intro id schema
      exact iff_of_false (fun halias ↦ nomatch halias) (fun hmem ↦ nomatch hmem)
    · intro entry hentry
      cases hentry
  exact reached.invariant hinit fun _ _ _ hinv htagged hstep ↦ hinv.step htagged hstep

/-- A tag whose observation went to a candidate that was promoted has the schema as its alias, if
the tag is that candidate or was promoted to the same schema itself. -/
theorem provisional_tags_resolve (sha256 : Bytes → Digest) (state : WireRun)
    (reached : (wireMachine sha256).Reachable (tagged sha256) state) (tag target : CandidateId)
    (hobserved : (tag, target) ∈ state.observed) (schema : SchemaId)
    (hpromoted : (target, schema) ∈ state.promoted) :
    (∃ answer ∈ state.pipeline.tags.history, answer.ref = .provisional tag) ∧
      getAlias state.pipeline.tags.registry target = some schema ∧
      (tag = target → getAlias state.pipeline.tags.registry tag = some schema) ∧
      ∀ other, getAlias state.pipeline.tags.registry tag = some other ↔
        (tag, other) ∈ state.promoted := by
  have hinv := wireInv_reachable reached
  have htarget := (hinv.aliases target schema).mpr hpromoted
  refine ⟨hinv.answered _ hobserved, htarget, ?_, hinv.aliases tag⟩
  rintro rfl
  exact htarget

/-! ### `{"a":1}` and `{"a":1,"b":1}` in one candidate -/

instance (state : WireRun) (event : PipelineEvent) : Decidable (tagged sha256 state event) :=
  match event with
  | .ingest call _ failure => inferInstanceAs (Decidable (failure = none ∧
      ∃ answer ∈ state.pipeline.tags.history, answer.fp = fingerprint sha256 (shapeOf call.node) ∧
        answer.ref = .provisional call.candId))
  | .setState _ target => inferInstanceAs (Decidable (target ≠ .rejected))
  | .promote policy id nowMs => inferInstanceAs (Decidable
      (matcherOnly state.pipeline (.promote policy id nowMs)))
  | .readVariants position members => inferInstanceAs (Decidable
      (matcherOnly state.pipeline (.readVariants position members)))
  | .publish position request => inferInstanceAs (Decidable
      (matcherOnly state.pipeline (.publish position request)))
  | .tag event => inferInstanceAs (Decidable (matcherOnly state.pipeline (.tag event)))

/-- What is hashed for the profile of both documents. -/
def mergedPreimage : Bytes :=
  ascii "deblob-monoid-v1\x00\x7b\"gen\":\"deblob-monoid-v1\",\"fields\":" ++
    ((Profile.fromNode (numbers ["a"])).merge
      (.fromNode (numbers ["a", "b"]))).generalizedCanonicalJson ++ ascii "\x7d"

/-- SHA-256 on what is hashed for these documents and for their merged profile. -/
def mergedSha256 (bytes : Bytes) : Digest :=
  if bytes = mergedPreimage then
    digestOfNat 0x0724c89e0eaf959ca7d64f20fadd16da7105fc43e42c8c3a3f88a2ad3dbeee45
  else ordersSha256 bytes

/-- The tag of a document with a number under each of the keys. -/
def ordersTag (keys : List String) : CandidateId :=
  .fromSourceAndDigest mergedSha256 "orders" (fingerprint mergedSha256 (shapeOf (numbers keys)))

/-- A message is tagged and then ingested. -/
def observeOrders (keys : List String) : List PipelineEvent :=
  [.tag (.classify (concreteVariant mergedSha256 (numbers keys)).1
      (fingerprint mergedSha256 (shapeOf (numbers keys))) "orders" true ""),
    .ingest ⟨ordersTag keys, numbers keys, "orders", 0⟩ true none]

def promoteOrders (documents : List (List String)) : List PipelineEvent :=
  [.promote ⟨1, 0⟩ (ordersTag ["a"]) 0,
    .readVariants 0 (documents.map fun keys ↦
      encodeVariant (concreteVariant mergedSha256 (numbers keys))),
    .publish 0 ⟨⟨"fam-1"⟩, "\x7b\x7d", "admin", "reviewed", "0"⟩,
    .setState (ordersTag ["a"]) .staged]

set_option maxRecDepth 4000 in
theorem provisional_tags_resolve_orders : ∃ state : WireRun, ∃ schema,
    (wireMachine mergedSha256).Reachable (tagged mergedSha256) state ∧
      getAlias state.pipeline.tags.registry (ordersTag ["a"]) = some schema := by
  have hreplay : ((wireMachine mergedSha256).replay (tagged mergedSha256)
      (wireMachine mergedSha256).init (observeOrders ["a"] ++ promoteOrders [["a"]])).map
        (fun state ↦ (state.observed, state.promoted)) =
      some ([(ordersTag ["a"], ordersTag ["a"])],
        [(ordersTag ["a"], .fromDigest
          ((Profile.fromNode (numbers ["a"])).generalizedFingerprint mergedSha256))]) := by
    decide +kernel
  rcases Option.map_eq_some_iff.mp hreplay with ⟨state, hstate, hview⟩
  have hreached := Machine.reachableFrom_replay _ hstate
  rcases Prod.mk.inj hview with ⟨hobserved, hpromoted⟩
  have hresolved := provisional_tags_resolve mergedSha256 state hreached (ordersTag ["a"])
    (ordersTag ["a"]) (hobserved ▸ List.mem_singleton_self _) _
    (hpromoted ▸ List.mem_singleton_self _)
  exact ⟨state, _, hreached, hresolved.2.2.1 rfl⟩

set_option maxRecDepth 4000 in
/-- The second document is tagged with its own candidate and routed to that of the first, which is
promoted; its tag has no alias. -/
theorem provisional_tag_unresolved : ∃ state : WireRun, ∃ schema,
    (wireMachine mergedSha256).Reachable (tagged mergedSha256) state ∧
      (∃ answer ∈ state.pipeline.tags.history, answer.ref = .provisional (ordersTag ["a", "b"])) ∧
      (ordersTag ["a", "b"], ordersTag ["a"]) ∈ state.observed ∧
      (ordersTag ["a"], schema) ∈ state.promoted ∧
      getAlias state.pipeline.tags.registry (ordersTag ["a", "b"]) = none := by
  have hreplay : ((wireMachine mergedSha256).replay (tagged mergedSha256)
      (wireMachine mergedSha256).init
      (observeOrders ["a"] ++ observeOrders ["a", "b"] ++ promoteOrders [["a"], ["a", "b"]])).map
        (fun state ↦ (state.observed, state.promoted,
          getAlias state.pipeline.tags.registry (ordersTag ["a", "b"]))) =
      some ([(ordersTag ["a"], ordersTag ["a"]), (ordersTag ["a", "b"], ordersTag ["a"])],
        [(ordersTag ["a"], .fromDigest (mergedSha256 mergedPreimage))], none) := by
    decide +kernel
  rcases Option.map_eq_some_iff.mp hreplay with ⟨state, hstate, hview⟩
  have hreached := Machine.reachableFrom_replay _ hstate
  rcases Prod.mk.inj hview with ⟨hobserved, hrest⟩
  rcases Prod.mk.inj hrest with ⟨hpromoted, halias⟩
  have hmem : (ordersTag ["a", "b"], ordersTag ["a"]) ∈ state.observed := by
    rw [hobserved]
    exact List.mem_cons_of_mem _ (List.mem_singleton_self _)
  exact ⟨state, _, hreached, (wireInv_reachable hreached).answered _ hmem, hmem,
    hpromoted ▸ List.mem_singleton_self _, halias⟩

end Deblob.Cold
