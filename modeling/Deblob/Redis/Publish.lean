import Deblob.Core.Identity
import Deblob.Lib.KeyedSets
import Deblob.Lib.TransitionSystem
import Mathlib.Algebra.GroupWithZero.Nat

/-!
# The publication script

The registry keys live in families with incomparable prefixes, so the store is one map for each
family. `publishScript` is the script `publish` invokes; Redis runs it as one step. Version counters
are natural numbers: a family would need about 10^14 publications before the number format of the
script's language shows.
-/

namespace Deblob.Redis

open Core Lib

def schemaPrefix : String := "deblob:schema:"
def familyPrefix : String := "deblob:family:"
def aliasPrefix : String := "deblob:alias:"
def publishedPrefix : String := "deblob:published:"
def indexPrefix : String := "deblob:index:"
def auditKey : String := "deblob:audit:log"
def schemaIndexKey : String := "deblob:schemas"

/-- No key of one family is a key of another one. -/
theorem keyPrefixes_incomparable :
    [schemaPrefix, familyPrefix, aliasPrefix, publishedPrefix, indexPrefix, auditKey,
      schemaIndexKey].Pairwise fun left right ↦
        ¬ left.toList <+: right.toList ∧ ¬ right.toList <+: left.toList := by
  decide

/-- The key of one bucket of the structural index. -/
structure BucketKey where
  text : String
  indexed : indexPrefix.toList <+: text.toList
  no_separator : '=' ∉ text.toList
deriving DecidableEq

/-- The bucket of the runs on fixed inputs. -/
def sampleBucketKey : BucketKey := ⟨"deblob:index:1:1:00000000", by decide, by decide⟩

/-- `variant_member`: a shape digest's base32 text pointing at a schema. -/
def variantMember (fp : String) (schemaId : SchemaId) : String :=
  fp ++ "=" ++ schemaId.asStr

def bucketMember (schemaId : SchemaId) : String := variantMember schemaId.body schemaId

/-- The fields of a schema hash. -/
structure SchemaHash where
  record : String
  canonical : String
  canonicalizer : String
  family : FamilyId
  version : ℕ
  bucket : BucketKey
  variants : List (BucketKey × String)

/-- The fields of a family hash; `versions n` is the field `v:n`. -/
structure FamilyHash where
  nextVersion : ℕ
  versions : ℕ → Option SchemaId

structure AuditEntry where
  actor : String
  reason : String
  schema : SchemaId
  ts : String

structure RegistryStore where
  schemas : SchemaId → Option SchemaHash
  families : FamilyId → Option FamilyHash
  aliases : CandidateId → Option SchemaId
  published : SchemaId → Option ℕ
  index : KeyedSets BucketKey String
  listing : Finset SchemaId
  audit : List AuditEntry

def RegistryStore.empty : RegistryStore :=
  ⟨fun _ ↦ none, fun _ ↦ none, fun _ ↦ none, fun _ ↦ none, fun _ ↦ ∅, ∅, []⟩

/-- The arguments of one publication. -/
structure PublishCall where
  schemaJson : String
  canonical : String
  canonicalizer : String
  familyId : FamilyId
  schemaId : SchemaId
  aliasFrom : CandidateId
  bucketKey : BucketKey
  variants : List (BucketKey × String)
  actor : String
  reason : String
  nowMs : String

inductive PublishError where
  | immutability
  | aliasConflict
deriving DecidableEq

namespace RegistryStore

/-- The version to report, allocated on a first publication only. -/
def allocateVersion (store : RegistryStore) (call : PublishCall) : ℕ × RegistryStore :=
  match store.published call.schemaId with
  | some version => (version, store)
  | none =>
    let family := (store.families call.familyId).getD ⟨0, fun _ ↦ none⟩
    let version := family.nextVersion + 1
    let family : FamilyHash :=
      ⟨version, Function.update family.versions version (some call.schemaId)⟩
    (version, { store with
      families := Function.update store.families call.familyId (some family)
      published := Function.update store.published call.schemaId (some version) })

/-- Write the schema hash unless it exists; its `variants` field is always overwritten. -/
def writeSchema (store : RegistryStore) (call : PublishCall) (version : ℕ) : RegistryStore :=
  let hash := (store.schemas call.schemaId).getD ⟨call.schemaJson, call.canonical,
    call.canonicalizer, call.familyId, version, call.bucketKey, []⟩
  { store with
    schemas := Function.update store.schemas call.schemaId
      (some { hash with variants := call.variants }) }

def writeAlias (store : RegistryStore) (call : PublishCall) : RegistryStore :=
  { store with
    aliases := Function.update store.aliases call.aliasFrom
      (some ((store.aliases call.aliasFrom).getD call.schemaId)) }

def addBucketMember (store : RegistryStore) (call : PublishCall) : RegistryStore :=
  { store with index := store.index.sadd call.bucketKey (bucketMember call.schemaId) }

def addListing (store : RegistryStore) (schemaId : SchemaId) : RegistryStore :=
  { store with listing := insert schemaId store.listing }

/-- Every observed shape goes into its own bucket. -/
def addVariants (store : RegistryStore) (call : PublishCall) : RegistryStore :=
  { store with
    index := store.index.saddEach (call.variants.map fun variant ↦
      (variant.1, variantMember variant.2 call.schemaId)) }

def appendAudit (store : RegistryStore) (call : PublishCall) : RegistryStore :=
  { store with audit := store.audit ++ [⟨call.actor, call.reason, call.schemaId, call.nowMs⟩] }

end RegistryStore

/-- Whether a stored record blocks the call: same id, other canonical identity. -/
def violatesImmutability (store : RegistryStore) (call : PublishCall) : Bool :=
  match store.schemas call.schemaId with
  | some hash => hash.canonical != call.canonical || hash.canonicalizer != call.canonicalizer
  | none => false

def aliasConflicts (store : RegistryStore) (call : PublishCall) : Bool :=
  match store.aliases call.aliasFrom with
  | some schemaId => schemaId != call.schemaId
  | none => false

/-- The writes of a call that passed the checks, in the script's order. -/
def publishWrites (store : RegistryStore) (call : PublishCall) : ℕ × RegistryStore :=
  let allocated := store.allocateVersion call
  let written := (allocated.2.writeSchema call allocated.1).writeAlias call
  let indexed := (written.addBucketMember call).addListing call.schemaId
  (allocated.1, (indexed.addVariants call).appendAudit call)

/-- Both checks come before the first write. -/
def publishScript (store : RegistryStore) (call : PublishCall) :
    Except PublishError ℕ × RegistryStore :=
  if violatesImmutability store call then (.error .immutability, store)
  else if aliasConflicts store call then (.error .aliasConflict, store)
  else (.ok (publishWrites store call).1, (publishWrites store call).2)

/-- Any number of clients publish in any order; one label is one script run. -/
def registryMachine : Machine RegistryStore PublishCall where
  init := .empty
  step store call := some (publishScript store call).2

/-- `family_version_schema`. -/
def familyVersionSchema (store : RegistryStore) (family : FamilyId) (version : ℕ) :
    Option SchemaId :=
  (store.families family).bind fun hash ↦ hash.versions version

/-- `next_version`, zero for a family nothing was published to. -/
def nextVersion (store : RegistryStore) (family : FamilyId) : ℕ :=
  ((store.families family).map FamilyHash.nextVersion).getD 0

/-- `list_family_versions`, derived from the counter; a counter past 32 bits does not parse. -/
def listFamilyVersions (store : RegistryStore) (family : FamilyId) : Option (List ℕ) :=
  if nextVersion store family < 2 ^ 32 then some (List.range' 1 (nextVersion store family))
  else none

/-! ## What one script run does -/

/-- What a successful script run found and left behind. -/
structure Published (store : RegistryStore) (call : PublishCall) (version : ℕ)
    (next : RegistryStore) : Prop where
  identity : ∀ hash, store.schemas call.schemaId = some hash →
    hash.canonical = call.canonical ∧ hash.canonicalizer = call.canonicalizer
  aliasFree : ∀ schemaId, store.aliases call.aliasFrom = some schemaId → schemaId = call.schemaId
  families : next.families = (store.allocateVersion call).2.families
  published : next.published = (store.allocateVersion call).2.published
  version_eq : version = (store.allocateVersion call).1
  schemas : next.schemas = (store.writeSchema call version).schemas
  aliases : next.aliases = (store.writeAlias call).aliases
  listing : next.listing = insert call.schemaId store.listing
  index : ∀ bucket member, member ∈ next.index bucket ↔
    member ∈ store.index bucket ∨ (bucket = call.bucketKey ∧ member = bucketMember call.schemaId) ∨
      ∃ variant ∈ call.variants,
        variant.1 = bucket ∧ member = variantMember variant.2 call.schemaId

theorem allocateVersion_of_published {store : RegistryStore} {call : PublishCall} {version : ℕ}
    (hpublished : store.published call.schemaId = some version) :
    store.allocateVersion call = (version, store) := by
  simp [RegistryStore.allocateVersion, hpublished]

/-- The first publication of a schema takes the next version of its family. -/
theorem allocateVersion_of_fresh {store : RegistryStore} {call : PublishCall}
    (hfresh : store.published call.schemaId = none) :
    (store.allocateVersion call).1 = nextVersion store call.familyId + 1 ∧
      (∀ family, nextVersion (store.allocateVersion call).2 family =
        if family = call.familyId then nextVersion store family + 1
        else nextVersion store family) ∧
      (∀ family version, familyVersionSchema (store.allocateVersion call).2 family version =
        if family = call.familyId ∧ version = nextVersion store family + 1 then some call.schemaId
        else familyVersionSchema store family version) ∧
      (store.allocateVersion call).2.published = Function.update store.published call.schemaId
        (some (nextVersion store call.familyId + 1)) := by
  have hnext : nextVersion store call.familyId =
      ((store.families call.familyId).getD ⟨0, fun _ ↦ none⟩).nextVersion := by
    unfold nextVersion
    cases store.families call.familyId <;> rfl
  simp only [RegistryStore.allocateVersion, hfresh, hnext, true_and]
  refine ⟨fun family ↦ ?_, fun family version ↦ ?_, trivial⟩
  · by_cases hfamily : family = call.familyId
    · subst hfamily
      rw [if_pos rfl, hnext]
      simp [nextVersion]
    · simp [nextVersion, hfamily]
  · by_cases hfamily : family = call.familyId
    · subst hfamily
      rw [hnext]
      by_cases hversion : version =
          ((store.families call.familyId).getD ⟨0, fun _ ↦ none⟩).nextVersion + 1
      · simp [familyVersionSchema, hversion]
      · simp only [familyVersionSchema, Function.update_self, Option.bind_some,
          Function.update_of_ne hversion, hversion, and_false, if_false]
        cases store.families call.familyId <;> rfl
    · simp [familyVersionSchema, hfamily]

@[simp]
theorem allocateVersion_schemas (store : RegistryStore) (call : PublishCall) :
    (store.allocateVersion call).2.schemas = store.schemas := by
  unfold RegistryStore.allocateVersion
  split <;> rfl

@[simp]
theorem allocateVersion_aliases (store : RegistryStore) (call : PublishCall) :
    (store.allocateVersion call).2.aliases = store.aliases := by
  unfold RegistryStore.allocateVersion
  split <;> rfl

@[simp]
theorem allocateVersion_index (store : RegistryStore) (call : PublishCall) :
    (store.allocateVersion call).2.index = store.index := by
  unfold RegistryStore.allocateVersion
  split <;> rfl

@[simp]
theorem allocateVersion_listing (store : RegistryStore) (call : PublishCall) :
    (store.allocateVersion call).2.listing = store.listing := by
  unfold RegistryStore.allocateVersion
  split <;> rfl

/-- The script either fails and writes nothing, or passes both checks and writes everything. -/
theorem publishScript_cases (store : RegistryStore) (call : PublishCall) :
    (∃ err, publishScript store call = (.error err, store)) ∨
      ∃ version next, publishScript store call = (.ok version, next) ∧
        Published store call version next := by
  unfold publishScript
  by_cases himmutable : violatesImmutability store call = true
  · exact .inl ⟨_, by rw [if_pos himmutable]⟩
  by_cases halias : aliasConflicts store call = true
  · exact .inl ⟨_, by rw [if_neg himmutable, if_pos halias]⟩
  rw [if_neg himmutable, if_neg halias]
  refine .inr ⟨(publishWrites store call).1, (publishWrites store call).2, rfl, ?_⟩
  constructor
  case identity =>
    intro hash hhash
    simpa [violatesImmutability, hhash] using himmutable
  case aliasFree =>
    intro schemaId hschema
    simpa [aliasConflicts, hschema] using halias
  case index =>
    intro bucket member
    simp only [publishWrites, RegistryStore.appendAudit, RegistryStore.addVariants,
      RegistryStore.addListing, RegistryStore.addBucketMember, RegistryStore.writeAlias,
      RegistryStore.writeSchema, allocateVersion_index, KeyedSets.mem_saddEach,
      KeyedSets.mem_sadd, List.mem_map, Prod.mk.injEq, eq_comm (a := member)]
    grind
  all_goals
    simp [publishWrites, RegistryStore.appendAudit, RegistryStore.addListing,
      RegistryStore.addBucketMember, RegistryStore.addVariants, RegistryStore.writeAlias,
      RegistryStore.writeSchema]

namespace Published

variable {store next : RegistryStore} {call : PublishCall} {version : ℕ}

/-- A schema hash that exists keeps everything but its `variants` field. -/
theorem schemas_of_some (hpublished : Published store call version next) {id : SchemaId}
    {hash : SchemaHash} (hhash : store.schemas id = some hash) :
    ∃ variants, next.schemas id = some { hash with variants } := by
  rw [hpublished.schemas]
  by_cases hid : id = call.schemaId
  · subst hid
    exact ⟨call.variants, by simp [RegistryStore.writeSchema, hhash]⟩
  · exact ⟨hash.variants, by simp [RegistryStore.writeSchema, hid, hhash]⟩

theorem schemas_of_ne (hpublished : Published store call version next) {id : SchemaId}
    (hid : id ≠ call.schemaId) : next.schemas id = store.schemas id := by
  rw [hpublished.schemas]
  simp [RegistryStore.writeSchema, hid]

theorem schemas_of_fresh (hpublished : Published store call version next)
    (hfresh : store.schemas call.schemaId = none) :
    next.schemas call.schemaId = some ⟨call.schemaJson, call.canonical, call.canonicalizer,
      call.familyId, version, call.bucketKey, call.variants⟩ := by
  rw [hpublished.schemas]
  simp [RegistryStore.writeSchema, hfresh]

end Published

end Deblob.Redis
