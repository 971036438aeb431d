import Deblob.Redis.Publish

/-!
# The registry as an immutable, versioned store

`Versioned` ties the schema hashes, the family slots, the published markers and the listing
together. One successful script run keeps it, so it holds after every sequence of publications by
any number of clients.
-/

namespace Deblob.Redis

open Core Lib

/-- The versioned store: every published schema sits in one slot of one family, the slots of a
family are `1..=next_version`, and the markers and the listing agree with the schema hashes. -/
structure Versioned (store : RegistryStore) : Prop where
  slot_iff : ∀ family version id, familyVersionSchema store family version = some id ↔
    ∃ hash, store.schemas id = some hash ∧ hash.family = family ∧ hash.version = version
  contiguous : ∀ family version, (familyVersionSchema store family version).isSome ↔
    1 ≤ version ∧ version ≤ nextVersion store family
  published_eq : ∀ id, store.published id = (store.schemas id).map SchemaHash.version
  listed : ∀ id, id ∈ store.listing ↔ (store.schemas id).isSome

theorem versioned_empty : Versioned .empty where
  slot_iff := by simp [familyVersionSchema, RegistryStore.empty]
  contiguous := by
    intro family version
    simp [familyVersionSchema, nextVersion, RegistryStore.empty]
    omega
  published_eq := by simp [RegistryStore.empty]
  listed := by simp [RegistryStore.empty]

namespace Published

variable {store next : RegistryStore} {call : PublishCall} {version : ℕ}

theorem familyVersionSchema_eq (hpublished : Published store call version next) :
    familyVersionSchema next = familyVersionSchema (store.allocateVersion call).2 := by
  unfold familyVersionSchema
  rw [hpublished.families]

theorem nextVersion_eq (hpublished : Published store call version next) :
    nextVersion next = nextVersion (store.allocateVersion call).2 := by
  unfold nextVersion
  rw [hpublished.families]

theorem aliases_of_some (hpublished : Published store call version next) {id : CandidateId}
    {schemaId : SchemaId} (halias : store.aliases id = some schemaId) :
    next.aliases id = some schemaId := by
  rw [hpublished.aliases]
  by_cases hid : id = call.aliasFrom
  · subst hid
    simp [RegistryStore.writeAlias, halias]
  · simp [RegistryStore.writeAlias, hid, halias]

/-- Publishing a schema again allocates nothing and only refreshes its `variants` field. -/
theorem versioned_again (hpublished : Published store call version next)
    (hinv : Versioned store) {hash : SchemaHash}
    (hhash : store.schemas call.schemaId = some hash) : Versioned next := by
  have hmarker : store.published call.schemaId = some hash.version := by
    rw [hinv.published_eq, hhash]
    rfl
  have hallocate := allocateVersion_of_published hmarker
  have hslots : familyVersionSchema next = familyVersionSchema store := by
    rw [hpublished.familyVersionSchema_eq, hallocate]
  have hnext : nextVersion next = nextVersion store := by
    rw [hpublished.nextVersion_eq, hallocate]
  obtain ⟨variants, hsame⟩ := hpublished.schemas_of_some hhash
  refine ⟨fun family version id ↦ ?_, ?_, fun id ↦ ?_, fun id ↦ ?_⟩
  · rw [hslots, hinv.slot_iff]
    by_cases hid : id = call.schemaId
    · subst hid
      simp [hsame, hhash]
    · rw [hpublished.schemas_of_ne hid]
  · rw [hslots, hnext]
    exact hinv.contiguous
  · rw [hpublished.published, hallocate, hinv.published_eq]
    by_cases hid : id = call.schemaId
    · subst hid
      simp [hsame, hhash]
    · rw [hpublished.schemas_of_ne hid]
  · rw [hpublished.listing, Finset.mem_insert, hinv.listed]
    by_cases hid : id = call.schemaId
    · subst hid
      simp [hsame]
    · simp [hpublished.schemas_of_ne hid, hid]

/-- The first publication of a schema extends its family by one slot. -/
theorem versioned_fresh (hpublished : Published store call version next)
    (hinv : Versioned store) (hfresh : store.schemas call.schemaId = none) : Versioned next := by
  have hmarker : store.published call.schemaId = none := by
    rw [hinv.published_eq, hfresh]
    rfl
  obtain ⟨hversion, hnext, hslots, hmarkers⟩ := allocateVersion_of_fresh hmarker
  rw [← hpublished.version_eq] at hversion
  have hnew := hpublished.schemas_of_fresh hfresh
  -- the new slot was empty, and the schema had none
  have hempty (id : SchemaId) (hash : SchemaHash) (hhash : store.schemas id = some hash)
      (hfamily : hash.family = call.familyId) : hash.version ≤ nextVersion store call.familyId := by
    have hslot := (hinv.slot_iff _ _ id).mpr ⟨hash, hhash, hfamily, rfl⟩
    exact ((hinv.contiguous _ _).mp (by simp [hslot])).2
  refine ⟨fun family slot id ↦ ?_, fun family slot ↦ ?_, fun id ↦ ?_, fun id ↦ ?_⟩
  · rw [hpublished.familyVersionSchema_eq, hslots]
    by_cases hid : id = call.schemaId
    · subst hid
      have hnone : familyVersionSchema store family slot ≠ some call.schemaId := by
        intro hsome
        obtain ⟨hash, hhash, -⟩ := (hinv.slot_iff _ _ _).mp hsome
        simp [hfresh] at hhash
      simp only [hnew, Option.some.injEq, exists_eq_left']
      split_ifs with hcase
      · obtain ⟨rfl, rfl⟩ := hcase
        simp [hversion]
      · constructor
        · intro hsome
          exact absurd hsome hnone
        · rintro ⟨rfl, rfl⟩
          exact absurd ⟨rfl, hversion⟩ hcase
    · rw [hpublished.schemas_of_ne hid]
      split_ifs with hcase
      · obtain ⟨rfl, rfl⟩ := hcase
        constructor
        · intro hsome
          exact absurd (Option.some.inj hsome).symm hid
        · rintro ⟨hash, hhash, hfamily, hslot⟩
          have := hempty id hash hhash hfamily
          omega
      · exact hinv.slot_iff _ _ _
  · rw [hpublished.familyVersionSchema_eq, hpublished.nextVersion_eq, hslots, hnext]
    have hold := hinv.contiguous family slot
    split_ifs with hcase hfamily hfamily
    · simp [hcase.2]
    · exact absurd hcase.1 hfamily
    · have hne : slot ≠ nextVersion store family + 1 := fun heq ↦ hcase ⟨hfamily, heq⟩
      rw [hold]
      omega
    · exact hold
  · rw [hpublished.published, hmarkers]
    by_cases hid : id = call.schemaId
    · subst hid
      simp [hnew, hversion]
    · rw [hpublished.schemas_of_ne hid, Function.update_of_ne hid, hinv.published_eq]
  · rw [hpublished.listing, Finset.mem_insert, hinv.listed]
    by_cases hid : id = call.schemaId
    · subst hid
      simp [hnew]
    · simp [hpublished.schemas_of_ne hid, hid]

theorem versioned (hpublished : Published store call version next) (hinv : Versioned store) :
    Versioned next := by
  cases hhash : store.schemas call.schemaId with
  | none => exact hpublished.versioned_fresh hinv hhash
  | some hash => exact hpublished.versioned_again hinv hhash

end Published

/-- What a later state keeps of an earlier one: canonical identities and aliases. -/
structure Extends (store later : RegistryStore) : Prop where
  identity : ∀ id hash, store.schemas id = some hash → ∃ kept, later.schemas id = some kept ∧
    kept.canonical = hash.canonical ∧ kept.canonicalizer = hash.canonicalizer
  aliases : ∀ candidate id, store.aliases candidate = some id → later.aliases candidate = some id

theorem Extends.refl (store : RegistryStore) : Extends store store where
  identity _ hash hhash := ⟨hash, hhash, rfl, rfl⟩
  aliases _ _ halias := halias

theorem Extends.publish {start store : RegistryStore} (hextends : Extends start store)
    (call : PublishCall) : Extends start (publishScript store call).2 := by
  rcases publishScript_cases store call with ⟨err, hscript⟩ | ⟨version, next, hscript, hpublished⟩
  · rw [hscript]
    exact hextends
  · rw [hscript]
    constructor
    · intro id hash hhash
      obtain ⟨kept, hkept, hcanonical, hcanonicalizer⟩ := hextends.identity id hash hhash
      obtain ⟨variants, hnext⟩ := hpublished.schemas_of_some hkept
      exact ⟨_, hnext, hcanonical, hcanonicalizer⟩
    · intro candidate id halias
      exact hpublished.aliases_of_some (hextends.aliases candidate id halias)

theorem Versioned.publish {store : RegistryStore} (hinv : Versioned store) (call : PublishCall) :
    Versioned (publishScript store call).2 := by
  rcases publishScript_cases store call with ⟨err, hscript⟩ | ⟨version, next, hscript, hpublished⟩
  · rw [hscript]
    exact hinv
  · rw [hscript]
    exact hpublished.versioned hinv

theorem versioned_reachable {store : RegistryStore}
    (reached : registryMachine.Reachable Machine.always store) : Versioned store := by
  refine reached.invariant versioned_empty ?_
  intro state call next hinv _ hstep
  cases hstep
  exact hinv.publish call

theorem extends_reachable {store later : RegistryStore}
    (reached : registryMachine.ReachableFrom Machine.always store later) :
    Extends store later := by
  refine reached.invariant (.refl store) ?_
  intro state call next hextends _ hstep
  cases hstep
  exact hextends.publish call

theorem Versioned.existsUnique_slot {store : RegistryStore} (hinv : Versioned store)
    {id : SchemaId} (hpublished : (store.published id).isSome) :
    ∃! slot : FamilyId × ℕ, familyVersionSchema store slot.1 slot.2 = some id := by
  rw [hinv.published_eq, Option.isSome_map] at hpublished
  obtain ⟨hash, hhash⟩ := Option.isSome_iff_exists.mp hpublished
  refine ⟨(hash.family, hash.version), (hinv.slot_iff _ _ _).mpr ⟨hash, hhash, rfl, rfl⟩, ?_⟩
  rintro ⟨family, version⟩ hslot
  obtain ⟨found, hfound, rfl, rfl⟩ := (hinv.slot_iff _ _ _).mp hslot
  obtain rfl : hash = found := Option.some.inj (hhash.symm.trans hfound)
  rfl

/-- Publishing the schema of a slot again reports that slot and allocates nothing. -/
theorem Versioned.publish_again {store : RegistryStore} (hinv : Versioned store)
    {call : PublishCall} {family : FamilyId} {version : ℕ}
    (hslot : familyVersionSchema store family version = some call.schemaId) :
    (publishScript store call).2.families = store.families ∧
      ((publishScript store call).1 = .ok version ∨ violatesImmutability store call = true ∨
        aliasConflicts store call = true) := by
  obtain ⟨hash, hhash, rfl, rfl⟩ := (hinv.slot_iff _ _ _).mp hslot
  have hmarker : store.published call.schemaId = some hash.version := by
    rw [hinv.published_eq, hhash]
    rfl
  have hallocate := allocateVersion_of_published hmarker
  rcases publishScript_cases store call with ⟨err, hscript⟩ | ⟨version, next, hscript, hpublished⟩
  · refine ⟨by rw [hscript], .inr ?_⟩
    unfold publishScript at hscript
    by_contra hpasses
    obtain ⟨himmutable, halias⟩ := not_or.mp hpasses
    simp [himmutable, halias] at hscript
  · rw [hscript]
    refine ⟨by rw [hpublished.families, hallocate], .inl ?_⟩
    rw [hpublished.version_eq, hallocate]

/-- What `list_family_versions` reports are exactly the stored version entries. -/
theorem Versioned.mem_listFamilyVersions {store : RegistryStore} (hinv : Versioned store)
    {family : FamilyId} {versions : List ℕ}
    (hlist : listFamilyVersions store family = some versions) (version : ℕ) :
    version ∈ versions ↔ (familyVersionSchema store family version).isSome := by
  unfold listFamilyVersions at hlist
  split at hlist <;> cases hlist
  rw [hinv.contiguous, List.mem_range'_1]
  omega

/-- A publication for runs on fixed inputs: a schema published from its own digest's candidate. -/
def sampleCall (digest : Digest) (canonical : String) : PublishCall where
  schemaJson := "{}"
  canonical := canonical
  canonicalizer := "deblob-canon-v1"
  familyId := ⟨"fam_0"⟩
  schemaId := .fromDigest digest
  aliasFrom := .fromDigest digest
  bucketKey := sampleBucketKey
  variants := []
  actor := "actor"
  reason := "reason"
  nowMs := "0"

end Deblob.Redis
