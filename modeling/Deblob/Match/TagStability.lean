import Deblob.Redis.Index
import Deblob.Lib.TransitionSystem
import Mathlib.Data.Finset.Basic
import Mathlib.Data.Finset.Dedup

/-!
# Stable tags under publications, evictions and rebuilds

The matcher answers from its cache, or from one bucket of the structural index. Publications write
the index at different times, rebuilds delete and restore it member by member, and cache entries
come and go. An answer is recorded when it is decided; the cache may be filled with it later.
-/

namespace Deblob.Match

open Core Lib Redis

/-- One answer of `classify`, with what the matcher computed from the document's shape. -/
structure Answer where
  bucket : BucketKey
  fp : Digest
  ref : SchemaRef
deriving DecidableEq

structure TagState where
  registry : RegistryStore
  /-- The `deblob:schema:*` keys, which nothing ever deletes. -/
  schemaKeys : Finset SchemaId
  cache : Digest → Option SchemaId
  /-- Resolved lookups that have not filled the cache yet. -/
  fills : List (Digest × SchemaId)
  rebuilds : List Rebuild
  history : List Answer

inductive TagEvent where
  | publish (call : PublishCall)
  | classify (bucket : BucketKey) (fp : Digest) (source : String) (available : Bool)
      (pick : String)
  | fill (position : ℕ)
  | evict (fp : Digest)
  | rebuildStart
  | rebuildDelete (position : ℕ) (bucket : BucketKey)
  | rebuildScan (position : ℕ) (keys : List SchemaId)
  | rebuildStep (position : ℕ)

def TagState.answer (state : TagState) (bucket : BucketKey) (fp : Digest) (ref : SchemaRef) :
    TagState :=
  { state with history := state.history ++ [⟨bucket, fp, ref⟩] }

def publishStep (state : TagState) (call : PublishCall) : TagState :=
  match publishScript state.registry call with
  | (.ok _, registry) =>
    { state with registry, schemaKeys := insert call.schemaId state.schemaKeys }
  | (.error _, registry) => { state with registry }

/-- The decision table for a parsed document. `available` is whether the registry answers, and
`pick` is the matching member the scan returns first. -/
def classify (sha256 : Bytes → Digest) (state : TagState) (bucket : BucketKey) (fp : Digest)
    (source : String) (available : Bool) (pick : String) : Option TagState :=
  match state.cache fp with
  | some known => some (state.answer bucket fp (.known known))
  | none =>
    if !available then some (state.answer bucket fp .unresolved)
    else
      let members := matchingMembers state.registry bucket (.fromDigest fp)
      if members = ∅ then
        some (state.answer bucket fp (.provisional (.fromSourceAndDigest sha256 source fp)))
      else if pick ∈ members then
        match memberSchema pick with
        | some known => some
            { state.answer bucket fp (.known known) with fills := state.fills ++ [(fp, known)] }
        | none => some (state.answer bucket fp .unresolved)
      else none

def tagStep (sha256 : Bytes → Digest) (state : TagState) : TagEvent → Option TagState
  | .publish call => some (publishStep state call)
  | .classify bucket fp source available pick =>
    classify sha256 state bucket fp source available pick
  | .fill position => (state.fills[position]?).map fun (fp, known) ↦
      { state with
        cache := Function.update state.cache fp (some known)
        fills := state.fills.eraseIdx position }
  | .evict fp => some { state with cache := Function.update state.cache fp none }
  | .rebuildStart => some { state with rebuilds := .deleting :: state.rebuilds }
  | .rebuildDelete position bucket =>
    match state.rebuilds[position]? with
    | some .deleting => some { state with registry := dropBucket state.registry bucket }
    | _ => none
  | .rebuildScan position keys =>
    match state.rebuilds[position]? with
    | some .deleting =>
      -- the scan returns every key that is there when it starts
      if state.schemaKeys ⊆ keys.toFinset then some { state with
        registry := { state.registry with listing := ∅ }
        rebuilds := replaceAt state.rebuilds position (some (.scanning keys)) }
      else none
    | _ => none
  | .rebuildStep position => (state.rebuilds[position]?).bind fun rebuild ↦
      (rebuildStep state.registry rebuild).map fun (registry, next) ↦
        { state with registry, rebuilds := replaceAt state.rebuilds position next }

def tagMachine (sha256 : Bytes → Digest) : Machine TagState TagEvent where
  init := ⟨.empty, ∅, fun _ ↦ none, [], [], []⟩
  step := tagStep sha256

/-- Once a shape was answered with a known schema, every later answer for it is that schema again,
or says that the registry did not answer. -/
def TagStable (history : List Answer) : Prop :=
  history.Pairwise fun earlier later ↦ earlier.bucket = later.bucket → earlier.fp = later.fp →
    ∀ known, earlier.ref = .known known → later.ref = .known known ∨ later.ref = .unresolved

/-- A publication adds no entry another schema has, and one that repeats an earlier publication
keeps its bucket and all of its variants. -/
def publishesApart (state : TagState) (call : PublishCall) : Prop :=
  (∀ variant ∈ call.variants, '=' ∉ variant.2.toList) ∧
    (∀ id ∈ state.schemaKeys, ∀ entry ∈ recorded state.registry id, id ≠ call.schemaId →
      entry ∉ (call.bucketKey, call.schemaId.body) :: call.variants) ∧
    ∀ hash ∈ state.registry.schemas call.schemaId,
      hash.bucket = call.bucketKey ∧ ∀ variant ∈ hash.variants, variant ∈ call.variants

/-- A fingerprint has one bucket, and the index is not asked about a shape that was already known
while a rebuild is in progress. -/
def asksSettled (state : TagState) (bucket : BucketKey) (fp : Digest) : Prop :=
  ∀ answer ∈ state.history, answer.fp = fp → answer.bucket = bucket ∧
    (answer.ref.isKnown = true → state.cache fp = none → state.rebuilds.isEmpty = true)

def settled (state : TagState) : TagEvent → Prop
  | .publish call => publishesApart state call
  | .classify bucket fp _ _ _ => asksSettled state bucket fp
  | _ => True

instance (state : TagState) (event : TagEvent) : Decidable (settled state event) :=
  match event with
  | .publish call => inferInstanceAs (Decidable (
      (∀ variant ∈ call.variants, '=' ∉ variant.2.toList) ∧
        (∀ id ∈ state.schemaKeys, ∀ entry ∈ recorded state.registry id, id ≠ call.schemaId →
          entry ∉ (call.bucketKey, call.schemaId.body) :: call.variants) ∧
        ∀ hash ∈ state.registry.schemas call.schemaId,
          hash.bucket = call.bucketKey ∧ ∀ variant ∈ hash.variants, variant ∈ call.variants))
  | .classify bucket fp _ _ _ => inferInstanceAs (Decidable (
      ∀ answer ∈ state.history, answer.fp = fp → answer.bucket = bucket ∧
        (answer.ref.isKnown = true → state.cache fp = none → state.rebuilds.isEmpty = true)))
  | .fill _ | .evict _ | .rebuildStart | .rebuildDelete .. | .rebuildScan .. | .rebuildStep _ =>
    inferInstanceAs (Decidable True)

/-- What holds between the schema hashes, the index, the rebuilds and the answers given so far. -/
structure TagInv (state : TagState) : Prop where
  keys : ∀ id, (state.registry.schemas id).isSome → id ∈ state.schemaKeys
  plain : ∀ id, ∀ entry ∈ recorded state.registry id, '=' ∉ entry.2.toList
  unique : ∀ id other entry, entry ∈ recorded state.registry id →
    entry ∈ recorded state.registry other → id = other
  sound : ∀ bucket, ∀ member ∈ state.registry.index bucket, ∃ id,
    ∃ entry ∈ recorded state.registry id, entry.1 = bucket ∧ member = variantMember entry.2 id
  restorable : ∀ id, ∀ entry ∈ recorded state.registry id,
    variantMember entry.2 id ∈ state.registry.index entry.1 ∨
      ∃ rebuild ∈ state.rebuilds, rebuild.owes id entry
  agrees : ∀ rebuild ∈ state.rebuilds, rebuild.agrees state.registry
  answered : ∀ answer ∈ state.history, ∀ known, answer.ref = .known known →
    (answer.bucket, digestBody answer.fp) ∈ recorded state.registry known
  cached : ∀ fp known, state.cache fp = some known →
    ∃ answer ∈ state.history, answer.fp = fp ∧ answer.ref = .known known
  filling : ∀ fill ∈ state.fills,
    ∃ answer ∈ state.history, answer.fp = fill.1 ∧ answer.ref = .known fill.2
  stable : TagStable state.history

namespace TagInv

variable {sha256 : Bytes → Digest} {state : TagState}

theorem schemas_isSome {store : RegistryStore} {id : SchemaId} {entry : BucketKey × String}
    (hentry : entry ∈ recorded store id) : (store.schemas id).isSome := by
  cases hhash : store.schemas id with
  | none => simp [recorded, hhash] at hentry
  | some hash => rfl

/-! ### Publications -/

section

variable {call : PublishCall} {version : ℕ} {next : RegistryStore}

theorem recorded_publish_self (hpublished : Published state.registry call version next)
    (hapart : publishesApart state call) :
    recorded next call.schemaId = (call.bucketKey, call.schemaId.body) :: call.variants := by
  cases hhash : state.registry.schemas call.schemaId with
  | none => exact recorded_eq (hpublished.schemas_of_fresh hhash)
  | some hash =>
      have hbucket := (hapart.2.2 hash hhash).1
      have hnext : next.schemas call.schemaId = some { hash with variants := call.variants } := by
        rw [hpublished.schemas]
        simp [RegistryStore.writeSchema, hhash]
      rw [recorded_eq hnext, ← hbucket]
      rfl

theorem recorded_publish_of_ne (hpublished : Published state.registry call version next)
    {id : SchemaId} (hid : id ≠ call.schemaId) :
    recorded next id = recorded state.registry id := by
  unfold recorded
  rw [hpublished.schemas_of_ne hid]

theorem recorded_publish_mono (hpublished : Published state.registry call version next)
    (hapart : publishesApart state call) {id : SchemaId} {entry : BucketKey × String}
    (hentry : entry ∈ recorded state.registry id) : entry ∈ recorded next id := by
  by_cases hid : id = call.schemaId
  · subst hid
    obtain ⟨hash, hhash⟩ := Option.isSome_iff_exists.mp (schemas_isSome hentry)
    obtain ⟨hbucket, hvariants⟩ := hapart.2.2 hash hhash
    rw [recorded_eq hhash, SchemaHash.entries, List.mem_cons] at hentry
    rw [recorded_publish_self hpublished hapart, List.mem_cons, ← hbucket]
    exact hentry.imp_right (hvariants entry)
  · rw [recorded_publish_of_ne hpublished hid]
    exact hentry

theorem publish (hinv : TagInv state) (hapart : publishesApart state call)
    (hpublished : Published state.registry call version next) :
    TagInv { state with
      registry := next
      schemaKeys := insert call.schemaId state.schemaKeys } := by
  have hmono {id : SchemaId} {entry : BucketKey × String} :
      entry ∈ recorded state.registry id → entry ∈ recorded next id :=
    recorded_publish_mono hpublished hapart
  have hself := recorded_publish_self hpublished hapart
  have hforeign (id : SchemaId) (hid : id ≠ call.schemaId) (entry : BucketKey × String)
      (hentry : entry ∈ recorded next id) : entry ∉ recorded next call.schemaId := by
    rw [recorded_publish_of_ne hpublished hid] at hentry
    rw [hself]
    exact hapart.2.1 id (hinv.keys id (schemas_isSome hentry)) entry hentry hid
  refine ⟨fun id hsome ↦ ?_, fun id entry hentry ↦ ?_, fun id other entry hleft hright ↦ ?_,
    fun bucket member hmember ↦ ?_, fun id entry hentry ↦ ?_, fun rebuild hrebuild ↦ ?_,
    fun answer hanswer known href ↦ hmono (hinv.answered answer hanswer known href),
    hinv.cached, hinv.filling, hinv.stable⟩
  · by_cases hid : id = call.schemaId
    · simp [hid]
    · rw [hpublished.schemas_of_ne hid] at hsome
      exact Finset.mem_insert_of_mem (hinv.keys id hsome)
  · by_cases hid : id = call.schemaId
    · subst hid
      rw [hself, List.mem_cons] at hentry
      rcases hentry with rfl | hvariant
      · exact call.schemaId.eq_notMem_body
      · exact hapart.1 entry hvariant
    · rw [recorded_publish_of_ne hpublished hid] at hentry
      exact hinv.plain id entry hentry
  · by_cases hid : id = call.schemaId
    · by_contra hne
      rw [hid] at hleft hne
      exact hforeign other (Ne.symm hne) entry hright hleft
    · by_cases hother : other = call.schemaId
      · subst hother
        exact absurd hright (hforeign id hid entry hleft)
      · rw [recorded_publish_of_ne hpublished hid] at hleft
        rw [recorded_publish_of_ne hpublished hother] at hright
        exact hinv.unique id other entry hleft hright
  · rcases (hpublished.index bucket member).mp hmember with hold | ⟨rfl, rfl⟩ | hvariant
    · obtain ⟨id, entry, hentry, hbucket, hmem⟩ := hinv.sound bucket member hold
      exact ⟨id, entry, hmono hentry, hbucket, hmem⟩
    · exact ⟨call.schemaId, (call.bucketKey, call.schemaId.body), by simp [hself], rfl, rfl⟩
    · obtain ⟨variant, hmem, hbucket, rfl⟩ := hvariant
      exact ⟨call.schemaId, variant, by simp [hself, hmem], hbucket, rfl⟩
  · by_cases hid : id = call.schemaId
    · subst hid
      left
      rw [hself, List.mem_cons] at hentry
      rw [hpublished.index]
      rcases hentry with rfl | hvariant
      · exact .inr (.inl ⟨rfl, rfl⟩)
      · exact .inr (.inr ⟨entry, hvariant, rfl, rfl⟩)
    · rw [recorded_publish_of_ne hpublished hid] at hentry
      refine (hinv.restorable id entry hentry).imp_left fun hold ↦ ?_
      exact (hpublished.index _ _).mpr (.inl hold)
  · have hagrees := hinv.agrees rebuild hrebuild
    cases rebuild with
    | readingVariants id bucket keys =>
        obtain ⟨hash, hhash, hbucket⟩ := hagrees
        obtain ⟨variants, hnext⟩ := hpublished.schemas_of_some hhash
        exact ⟨_, hnext, hbucket⟩
    | restoringVariants id variants keys =>
        exact fun variant hvariant ↦ hmono (hagrees variant hvariant)
    | deleting | scanning | restoringBucket => trivial

end

/-! ### Answers -/

theorem answer (hinv : TagInv state) {bucket : BucketKey} {fp : Digest} {ref : SchemaRef}
    (hknown : ∀ known, ref = .known known →
      (bucket, digestBody fp) ∈ recorded state.registry known)
    (hstable : ∀ answer ∈ state.history, answer.bucket = bucket → answer.fp = fp →
      ∀ known, answer.ref = .known known → ref = .known known ∨ ref = .unresolved) :
    TagInv (state.answer bucket fp ref) where
  keys := hinv.keys
  plain := hinv.plain
  unique := hinv.unique
  sound := hinv.sound
  restorable := hinv.restorable
  agrees := hinv.agrees
  answered answer hanswer known href := by
    rcases List.mem_append.mp hanswer with hold | hnew
    · exact hinv.answered answer hold known href
    · obtain rfl := List.mem_singleton.mp hnew
      exact hknown known href
  cached fp known hcache := by
    obtain ⟨answer, hanswer, hfp, href⟩ := hinv.cached fp known hcache
    exact ⟨answer, List.mem_append_left _ hanswer, hfp, href⟩
  filling fill hfill := by
    obtain ⟨answer, hanswer, hfp, href⟩ := hinv.filling fill hfill
    exact ⟨answer, List.mem_append_left _ hanswer, hfp, href⟩
  stable := by
    refine List.pairwise_append.mpr ⟨hinv.stable, List.pairwise_singleton _ _, ?_⟩
    intro earlier hearlier later hlater
    obtain rfl := List.mem_singleton.mp hlater
    exact hstable earlier hearlier

/-- An answer with a schema that records the shape agrees with every earlier one. -/
theorem answer_known (hinv : TagInv state) {bucket : BucketKey} {fp : Digest} {known : SchemaId}
    (hrecorded : (bucket, digestBody fp) ∈ recorded state.registry known) :
    TagInv (state.answer bucket fp (.known known)) := by
  refine hinv.answer (fun found href ↦ ?_) fun answer hanswer hbucket hfp earlier href ↦ ?_
  · cases href
    exact hrecorded
  · have hearlier := hinv.answered answer hanswer earlier href
    rw [hbucket, hfp] at hearlier
    rw [hinv.unique known earlier _ hrecorded hearlier]
    exact .inl rfl

theorem answer_unresolved (hinv : TagInv state) (bucket : BucketKey) (fp : Digest) :
    TagInv (state.answer bucket fp .unresolved) :=
  hinv.answer (by simp) fun _ _ _ _ _ _ ↦ .inr rfl

/-- The members a scan can return are the ones recorded under the fingerprint. -/
theorem recorded_of_matching (hinv : TagInv state) {bucket : BucketKey} {fp : Digest}
    {member : String} (hmember : member ∈ matchingMembers state.registry bucket (.fromDigest fp)) :
    ∃ id, memberSchema member = some id ∧ (bucket, digestBody fp) ∈ recorded state.registry id := by
  obtain ⟨hindex, hmatches⟩ := Finset.mem_filter.mp hmember
  obtain ⟨id, entry, hentry, rfl, rfl⟩ := hinv.sound bucket member hindex
  have hplain := hinv.plain id entry hentry
  have htext := (prefix_variantMember hplain (.fromDigest fp)).mp (of_decide_eq_true hmatches)
  rw [DigestId.body_fromDigest] at htext
  refine ⟨id, memberSchema_variantMember hplain, ?_⟩
  rw [← htext]
  exact hentry

/-- With no rebuild in progress, a recorded shape is found. -/
theorem matching_of_recorded (hinv : TagInv state) {bucket : BucketKey} {fp : Digest}
    {id : SchemaId} (hentry : (bucket, digestBody fp) ∈ recorded state.registry id)
    (hquiet : state.rebuilds.isEmpty = true) :
    variantMember (digestBody fp) id ∈
      matchingMembers state.registry bucket (.fromDigest fp) := by
  have hindex : variantMember (digestBody fp) id ∈ state.registry.index bucket := by
    rcases hinv.restorable id _ hentry with hindex | ⟨rebuild, hrebuild, -⟩
    · exact hindex
    · rw [List.isEmpty_iff.mp hquiet] at hrebuild
      cases hrebuild
  refine Finset.mem_filter.mpr ⟨hindex, decide_eq_true ?_⟩
  rw [prefix_variantMember (hinv.plain id _ hentry), DigestId.body_fromDigest]

theorem classify (hinv : TagInv state) {bucket : BucketKey} {fp : Digest} {source : String}
    {available : Bool} {pick : String} {next : TagState}
    (hsettled : asksSettled state bucket fp)
    (hstep : Match.classify sha256 state bucket fp source available pick = some next) :
    TagInv next := by
  unfold Match.classify at hstep
  cases hcache : state.cache fp with
  | some known =>
      simp only [hcache, Option.some.injEq] at hstep
      subst hstep
      obtain ⟨answer, hanswer, hfp, href⟩ := hinv.cached fp known hcache
      have hrecorded := hinv.answered answer hanswer known href
      rw [(hsettled answer hanswer hfp).1, hfp] at hrecorded
      exact hinv.answer_known hrecorded
  | none =>
      simp only [hcache] at hstep
      split_ifs at hstep with havailable hempty hpick
      · cases hstep
        exact hinv.answer_unresolved bucket fp
      · cases hstep
        refine hinv.answer (by simp) fun answer hanswer hbucket hfp known href ↦ ?_
        -- a shape answered before is recorded, so the scan of its bucket is not empty
        have hrecorded := hinv.answered answer hanswer known href
        rw [hbucket, hfp] at hrecorded
        have hquiet := (hsettled answer hanswer hfp).2 (by rw [href]; rfl) hcache
        have hfound := hinv.matching_of_recorded hrecorded hquiet
        rw [hempty] at hfound
        cases hfound
      · obtain ⟨known, hmember, hrecorded⟩ := hinv.recorded_of_matching hpick
        simp only [hmember, Option.some.injEq] at hstep
        subst hstep
        have hanswered := hinv.answer_known hrecorded
        refine ⟨hanswered.keys, hanswered.plain, hanswered.unique, hanswered.sound,
          hanswered.restorable, hanswered.agrees, hanswered.answered, hanswered.cached, ?_,
          hanswered.stable⟩
        intro fill hfill
        rcases List.mem_append.mp hfill with hold | hnew
        · exact hanswered.filling fill hold
        · obtain rfl := List.mem_singleton.mp hnew
          exact ⟨⟨bucket, fp, .known known⟩, by simp [TagState.answer], rfl, rfl⟩

/-! ### The cache -/

theorem fill (hinv : TagInv state) {position : ℕ} {fp : Digest} {known : SchemaId}
    (hposition : state.fills[position]? = some (fp, known)) :
    TagInv { state with
      cache := Function.update state.cache fp (some known)
      fills := state.fills.eraseIdx position } := by
  refine ⟨hinv.keys, hinv.plain, hinv.unique, hinv.sound, hinv.restorable, hinv.agrees,
    hinv.answered, fun other found hcache ↦ ?_,
    fun fill hfill ↦ hinv.filling fill (List.mem_of_mem_eraseIdx hfill), hinv.stable⟩
  by_cases hother : other = fp
  · subst hother
    obtain rfl : known = found := by simpa using hcache
    exact hinv.filling (other, known) (List.mem_of_getElem? hposition)
  · exact hinv.cached other found (by simpa [hother] using hcache)

theorem evict (hinv : TagInv state) (fp : Digest) :
    TagInv { state with cache := Function.update state.cache fp none } := by
  refine ⟨hinv.keys, hinv.plain, hinv.unique, hinv.sound, hinv.restorable, hinv.agrees,
    hinv.answered, fun other found hcache ↦ ?_, hinv.filling, hinv.stable⟩
  by_cases hother : other = fp
  · simp [hother] at hcache
  · exact hinv.cached other found (by simpa [hother] using hcache)

/-! ### Rebuilds -/

theorem rebuildStart (hinv : TagInv state) :
    TagInv { state with rebuilds := .deleting :: state.rebuilds } := by
  refine ⟨hinv.keys, hinv.plain, hinv.unique, hinv.sound, fun id entry _ ↦
    .inr ⟨.deleting, List.mem_cons_self, trivial⟩, fun rebuild hrebuild ↦ ?_, hinv.answered,
    hinv.cached, hinv.filling, hinv.stable⟩
  rcases List.mem_cons.mp hrebuild with rfl | hold
  · trivial
  · exact hinv.agrees rebuild hold

theorem rebuildDelete (hinv : TagInv state) {position : ℕ} (bucket : BucketKey)
    (hposition : state.rebuilds[position]? = some .deleting) :
    TagInv { state with registry := dropBucket state.registry bucket } := by
  refine ⟨hinv.keys, hinv.plain, hinv.unique, fun other member hmember ↦ ?_, fun id entry _ ↦
    .inr ⟨.deleting, List.mem_of_getElem? hposition, trivial⟩, hinv.agrees, hinv.answered,
    hinv.cached, hinv.filling, hinv.stable⟩
  by_cases hother : other = bucket
  · simp [dropBucket, hother] at hmember
  · exact hinv.sound other member (by simpa [dropBucket, hother] using hmember)

/-- One command of a rebuild: it adds recorded members only, and what it no longer owes is in the
index. -/
theorem rebuildProgress (hinv : TagInv state) {position : ℕ} {rebuild : Rebuild}
    {registry : RegistryStore} {next : Option Rebuild}
    (hposition : state.rebuilds[position]? = some rebuild)
    (hschemas : registry.schemas = state.registry.schemas)
    (hgrow : ∀ bucket, state.registry.index bucket ⊆ registry.index bucket)
    (hsound : ∀ bucket, ∀ member ∈ registry.index bucket, member ∈ state.registry.index bucket ∨
      ∃ id, ∃ entry ∈ recorded state.registry id,
        entry.1 = bucket ∧ member = variantMember entry.2 id)
    (howes : ∀ id, ∀ entry ∈ recorded state.registry id, rebuild.owes id entry →
      variantMember entry.2 id ∈ registry.index entry.1 ∨
        ∃ left, next = some left ∧ left.owes id entry)
    (hagrees : ∀ left, next = some left → left.agrees state.registry) :
    TagInv { state with registry, rebuilds := replaceAt state.rebuilds position next } := by
  have hrecorded : recorded registry = recorded state.registry := by
    funext id
    unfold recorded
    rw [hschemas]
  refine ⟨?_, ?_, ?_, fun bucket member hmember ↦ ?_, fun id entry hentry ↦ ?_,
    fun left hleft ↦ ?_, ?_, hinv.cached, hinv.filling, hinv.stable⟩
  · dsimp only
    rw [hschemas]
    exact hinv.keys
  · dsimp only
    rw [hrecorded]
    exact hinv.plain
  · dsimp only
    rw [hrecorded]
    exact hinv.unique
  · dsimp only
    rw [hrecorded]
    exact (hsound bucket member hmember).elim (hinv.sound bucket member) id
  · dsimp only at hentry ⊢
    rw [hrecorded] at hentry
    rcases hinv.restorable id entry hentry with hindex | ⟨other, hother, hdue⟩
    · exact .inl (hgrow entry.1 hindex)
    · rcases (mem_pending hposition other).mp hother with rfl | hrest
      · refine (howes id entry hentry hdue).imp_right ?_
        rintro ⟨left, hnext, hleft⟩
        exact ⟨left, mem_replaceAt.mpr (.inl hnext), hleft⟩
      · exact .inr ⟨other, mem_replaceAt.mpr (.inr hrest), hdue⟩
  · have hold : left.agrees state.registry := by
      rcases of_mem_replaceAt hleft with hnew | hold
      · exact hagrees left hnew
      · exact hinv.agrees left hold
    cases left with
    | readingVariants id bucket keys =>
        obtain ⟨hash, hhash, hbucket⟩ := hold
        exact ⟨hash, by rw [hschemas]; exact hhash, hbucket⟩
    | restoringVariants id variants keys =>
        intro variant hvariant
        rw [hrecorded]
        exact hold variant hvariant
    | deleting | scanning | restoringBucket => trivial
  · dsimp only
    rw [hrecorded]
    exact hinv.answered

theorem mem_addMember_index {store : RegistryStore} {bucket other : BucketKey}
    {member found : String} : found ∈ (addMember store bucket member).index other ↔
      (other = bucket ∧ found = member) ∨ found ∈ store.index other := by
  simp [addMember]

theorem rebuildStep (hinv : TagInv state) {position : ℕ} {rebuild : Rebuild}
    {registry : RegistryStore} {next : Option Rebuild}
    (hposition : state.rebuilds[position]? = some rebuild)
    (hstep : Redis.rebuildStep state.registry rebuild = some (registry, next)) :
    TagInv { state with registry, rebuilds := replaceAt state.rebuilds position next } := by
  have hadd {bucket : BucketKey} {text : String} {id : SchemaId}
      (hentry : (bucket, text) ∈ recorded state.registry id) :
      ∀ other, ∀ member ∈ (addMember state.registry bucket (variantMember text id)).index other,
        member ∈ state.registry.index other ∨ ∃ id, ∃ entry ∈ recorded state.registry id,
          entry.1 = other ∧ member = variantMember entry.2 id := by
    intro other member hmember
    rcases mem_addMember_index.mp hmember with ⟨rfl, rfl⟩ | hold
    · exact .inr ⟨id, _, hentry, rfl, rfl⟩
    · exact .inl hold
  have hgrow (bucket : BucketKey) (member : String) (other : BucketKey) :
      state.registry.index other ⊆ (addMember state.registry bucket member).index other :=
    fun found hfound ↦ mem_addMember_index.mpr (.inr hfound)
  have hagrees := hinv.agrees rebuild (List.mem_of_getElem? hposition)
  cases rebuild with
  | deleting => cases hstep
  | scanning keys =>
      cases keys with
      | nil =>
          cases hstep
          refine hinv.rebuildProgress hposition rfl (fun _ ↦ subset_rfl) (fun _ _ ↦ .inl) ?_ ?_
          · intro id entry _ hdue
            cases hdue
          · simp
      | cons current keys =>
          cases hstep
          refine hinv.rebuildProgress hposition rfl (fun _ ↦ subset_rfl) (fun _ _ ↦ .inl) ?_ ?_
          · intro id entry _ hdue
            exact .inr ⟨_, rfl, List.mem_cons.mp hdue⟩
          · rintro left ⟨⟩
            trivial
  | restoringBucket current keys =>
      simp only [Redis.rebuildStep] at hstep
      split at hstep
      · rename_i hash hhash
        cases hstep
        have hown : (hash.bucket, current.body) ∈ recorded state.registry current := by
          simp [recorded_eq hhash, SchemaHash.entries]
        refine hinv.rebuildProgress hposition rfl (hgrow _ _) (hadd hown) ?_ ?_
        · intro id entry _ hdue
          rcases hdue with rfl | hlater
          · by_cases hentry : entry = (hash.bucket, id.body)
            · subst hentry
              exact .inl (mem_addMember_index.mpr (.inl ⟨rfl, rfl⟩))
            · exact .inr ⟨_, rfl, .inl ⟨rfl, hentry⟩⟩
          · exact .inr ⟨_, rfl, .inr hlater⟩
        · rintro left ⟨⟩
          exact ⟨hash, hhash, rfl⟩
      · rename_i hnone
        cases hstep
        refine hinv.rebuildProgress hposition rfl (fun _ ↦ subset_rfl) (fun _ _ ↦ .inl) ?_ ?_
        · intro id entry hentry hdue
          rcases hdue with rfl | hlater
          · simp [recorded, hnone] at hentry
          · exact .inr ⟨_, rfl, hlater⟩
        · rintro left ⟨⟩
          trivial
  | readingVariants current bucket keys =>
      cases hstep
      obtain ⟨hash, hhash, rfl⟩ := hagrees
      refine hinv.rebuildProgress hposition rfl (fun _ ↦ subset_rfl) (fun _ _ ↦ .inl) ?_ ?_
      · intro id entry hentry hdue
        refine .inr ⟨_, rfl, hdue.imp_left ?_⟩
        rintro ⟨rfl, hne⟩
        rw [recorded_eq hhash, SchemaHash.entries, List.mem_cons] at hentry
        exact ⟨rfl, by simpa [hhash] using hentry.resolve_left hne⟩
      · rintro left ⟨⟩ variant hvariant
        rw [recorded_eq hhash]
        exact List.mem_cons_of_mem _ (by simpa [hhash] using hvariant)
  | restoringVariants current variants keys =>
      cases variants with
      | nil =>
          cases hstep
          refine hinv.rebuildProgress hposition rfl (fun _ ↦ subset_rfl) (fun _ _ ↦ .inl) ?_ ?_
          · intro id entry _ hdue
            exact .inr ⟨_, rfl, hdue.resolve_left (by simp)⟩
          · rintro left ⟨⟩
            trivial
      | cons variant variants =>
          cases hstep
          rw [Rebuild.agrees, List.forall_mem_cons] at hagrees
          refine hinv.rebuildProgress hposition rfl (hgrow _ _) (hadd hagrees.1) ?_ ?_
          · intro id entry _ hdue
            rcases hdue with ⟨rfl, hvariant⟩ | hlater
            · rcases List.mem_cons.mp hvariant with rfl | hrest
              · exact .inl (mem_addMember_index.mpr (.inl ⟨rfl, rfl⟩))
              · exact .inr ⟨_, rfl, .inl ⟨rfl, hrest⟩⟩
            · exact .inr ⟨_, rfl, .inr hlater⟩
          · rintro left ⟨⟩
            exact hagrees.2

theorem rebuildScan (hinv : TagInv state) {position : ℕ} {keys : List SchemaId}
    (hposition : state.rebuilds[position]? = some .deleting)
    (hcomplete : state.schemaKeys ⊆ keys.toFinset) :
    TagInv { state with
      registry := { state.registry with listing := ∅ }
      rebuilds := replaceAt state.rebuilds position (some (.scanning keys)) } := by
  refine hinv.rebuildProgress hposition rfl (fun _ ↦ subset_rfl) (fun _ _ ↦ .inl) ?_ ?_
  · intro id entry hentry _
    have hkey := hcomplete (hinv.keys id (schemas_isSome hentry))
    exact .inr ⟨_, rfl, List.mem_toFinset.mp hkey⟩
  · rintro left ⟨⟩
    trivial

theorem step (hinv : TagInv state) {event : TagEvent} {next : TagState}
    (hsettled : settled state event) (hstep : tagStep sha256 state event = some next) :
    TagInv next := by
  cases event with
  | publish call =>
      cases hstep
      unfold publishStep
      rcases publishScript_cases state.registry call with
        ⟨err, hscript⟩ | ⟨version, registry, hscript, hpublished⟩
      · rw [hscript]
        exact hinv
      · rw [hscript]
        exact hinv.publish hsettled hpublished
  | classify bucket fp source available pick => exact hinv.classify hsettled hstep
  | fill position =>
      obtain ⟨⟨fp, known⟩, hposition, rfl⟩ := Option.map_eq_some_iff.mp hstep
      exact hinv.fill hposition
  | evict fp =>
      cases hstep
      exact hinv.evict fp
  | rebuildStart =>
      cases hstep
      exact hinv.rebuildStart
  | rebuildDelete position bucket =>
      simp only [tagStep] at hstep
      split at hstep <;> cases hstep
      rename_i hposition
      exact hinv.rebuildDelete bucket hposition
  | rebuildScan position keys =>
      simp only [tagStep] at hstep
      split at hstep
      · rename_i hposition
        split_ifs at hstep with hcomplete
        cases hstep
        exact hinv.rebuildScan hposition hcomplete
      · cases hstep
  | rebuildStep position =>
      obtain ⟨rebuild, hposition, hrest⟩ := Option.bind_eq_some_iff.mp hstep
      obtain ⟨⟨registry, left⟩, hcommand, rfl⟩ := Option.map_eq_some_iff.mp hrest
      exact hinv.rebuildStep hposition hcommand

theorem init : TagInv (tagMachine sha256).init := by
  constructor <;> simp [tagMachine, RegistryStore.empty, recorded, TagStable]

end TagInv

/-- Tags are stable in every run whose publications stay apart and whose lookups of known shapes
wait for rebuilds. -/
theorem tags_stable (sha256 : Bytes → Digest) :
    ∀ state, (tagMachine sha256).Reachable settled state → TagStable state.history := by
  intro state reached
  have hinv : TagInv state :=
    reached.invariant .init fun _ _ _ hinv hsettled hstep ↦ hinv.step hsettled hstep
  exact hinv.stable

/-! ## Fixed runs -/

def sampleBucket : BucketKey := sampleBucketKey

def sampleFp : Digest := .replicate 32 1

/-- A schema published with one observed shape. -/
def samplePublication : PublishCall where
  schemaJson := "{}"
  canonical := "{}"
  canonicalizer := "deblob-canon-v1"
  familyId := ⟨"fam_0"⟩
  schemaId := .fromDigest (.replicate 32 0)
  aliasFrom := .fromDigest (.replicate 32 0)
  bucketKey := sampleBucket
  variants := [(sampleBucket, digestBody sampleFp)]
  actor := "actor"
  reason := "reason"
  nowMs := "0"

/-- One lookup of the observed shape, whose bucket scan returns its member. -/
def sampleLookup : TagEvent :=
  .classify sampleBucket sampleFp "raw" true
    (variantMember (digestBody sampleFp) samplePublication.schemaId)

def sampleMachine : Machine TagState TagEvent := tagMachine fun _ ↦ .replicate 32 0

/-- The shape is answered from the index, from the cache, and again after a whole rebuild. -/
theorem tags_stable_rebuilt :
    ∃ state : TagState, state.history.map Answer.ref =
      .replicate 3 (.known samplePublication.schemaId) ∧ TagStable state.history := by
  have hrun : (sampleMachine.replay settled sampleMachine.init
      [.publish samplePublication, sampleLookup, .fill 0, sampleLookup, .evict sampleFp,
        .rebuildStart, .rebuildDelete 0 sampleBucket, .rebuildScan 0 [samplePublication.schemaId],
        .rebuildStep 0, .rebuildStep 0, .rebuildStep 0, .rebuildStep 0, .rebuildStep 0,
        .rebuildStep 0, sampleLookup]).map (·.history.map Answer.ref) =
      some (.replicate 3 (.known samplePublication.schemaId)) := by
    decide +kernel
  obtain ⟨state, hstate, hhistory⟩ := Option.map_eq_some_iff.mp hrun
  exact ⟨state, hhistory, tags_stable _ _ (Machine.reachableFrom_replay _ hstate)⟩

/-- A known shape is asked about again right after a rebuild deleted its bucket. -/
theorem tag_lost_during_rebuild :
    ∃ state, sampleMachine.Reachable Machine.always state ∧
      ¬ TagStable state.history := by
  have hrun : (sampleMachine.replay Machine.always sampleMachine.init
      [.publish samplePublication, sampleLookup, .rebuildStart, .rebuildDelete 0 sampleBucket,
        sampleLookup]).map TagState.history =
      some [⟨sampleBucket, sampleFp, .known samplePublication.schemaId⟩,
        ⟨sampleBucket, sampleFp, .provisional (.fromSourceAndDigest (fun _ ↦ .replicate 32 0) "raw"
          sampleFp)⟩] := by
    decide +kernel
  obtain ⟨state, hstate, hhistory⟩ := Option.map_eq_some_iff.mp hrun
  refine ⟨state, Machine.reachableFrom_replay _ hstate, fun hstable ↦ ?_⟩
  rw [hhistory] at hstable
  obtain ⟨hlater, -⟩ := List.pairwise_cons.mp hstable
  have hagain := hlater _ (List.mem_singleton_self _) rfl rfl samplePublication.schemaId rfl
  simp at hagain

end Deblob.Match
