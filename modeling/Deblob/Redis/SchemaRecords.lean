import Deblob.Redis.VersionedStore
import Deblob.Umbrella.Types
import Deblob.Lib.SortedMap
import Mathlib.Data.String.Basic

/-!
# Schema records

A schema is stored with the JSON text of the record it was first published with. A read takes the
version from its own field, since the one in the text is only a guess, and lays the governed name
over the provenance. A publication reports a version and leaves it to the caller to put it into the
record that was handed in, so that record is the stored one only if the schema is stored under the
family that it names.
-/

namespace Deblob.Redis

open Core Lib
open Umbrella (Value)

abbrev ValueProfileId := DigestId "vp_"

structure ValueProfileSummary where
  profileId : ValueProfileId
  leafCount : ℕ
  observationCount : ℕ
  capturedAtMs : ℤ

/-- A published record without its semantic fields, which promotions leave empty. -/
structure SchemaRecord where
  schemaId : SchemaId
  familyId : FamilyId
  version : ℕ
  canonical : String
  canonicalizer : String
  provenance : Value
  valueProfileRef : Option ValueProfileId
  valueProfileSummary : Option ValueProfileSummary
  structuralSimhash : Option ℕ

/-- The JSON library: `to_string` and `from_str` at the types it is used at. -/
structure RecordJson where
  toString : SchemaRecord → String
  fromStr : String → Option SchemaRecord
  fromStrValue : String → Option Value

/-- The text of the record deserializes to the record. -/
def RecordJson.ReadsBack (json : RecordJson) (record : SchemaRecord) : Prop :=
  json.fromStr (json.toString record) = some record

/-- The name fields of a schema hash, which are not part of the record. -/
structure NameFields where
  label : Option String
  source : Option String
  metadata : Option String

structure SchemaVault where
  registry : RegistryStore
  names : SchemaId → NameFields

def SchemaVault.empty : SchemaVault := ⟨.empty, fun _ ↦ ⟨none, none, none⟩⟩

inductive GetSchemaError where
  | corruptRecord
  | corruptVersion
deriving DecidableEq

/-- The record of a hash, with the version from the hash, which is read as 32 bits. -/
def recordFromHash (json : RecordJson) (text : String) (version : ℕ) :
    Except GetSchemaError SchemaRecord :=
  match json.fromStr text with
  | none => .error .corruptRecord
  | some record =>
    if version < 2 ^ 32 then .ok { record with version := version } else .error .corruptVersion

/-- The entries of a provenance; anything but an object counts as an empty one. -/
def provenanceEntries : Value → List (String × Value)
  | .object entries => entries
  | _ => []

def insertEntry (key : String) (value : Option Value) (entries : List (String × Value)) :
    List (String × Value) :=
  match value with
  | some value => insertWith key value (fun _ ↦ value) entries
  | none => entries

def overlayName (json : RecordJson) (name : NameFields) (record : SchemaRecord) : SchemaRecord :=
  if name.label.isNone ∧ name.source.isNone ∧ name.metadata.isNone then record
  else
    let labelled := insertEntry "label" (name.label.map .string)
      (provenanceEntries record.provenance)
    let sourced := insertEntry "name_source" (name.source.map .string) labelled
    let described := insertEntry "name_meta"
      (name.metadata.map fun text ↦ (json.fromStrValue text).getD (.string text)) sourced
    { record with provenance := .object described }

def getSchema (json : RecordJson) (vault : SchemaVault) (id : SchemaId) :
    Except GetSchemaError (Option SchemaRecord) :=
  match vault.registry.schemas id with
  | none => .ok none
  | some hash =>
    (recordFromHash json hash.record hash.version).map fun record ↦
      some (overlayName json (vault.names id) record)

/-- Where and by whom a record is published. -/
structure PublishContext where
  aliasFrom : CandidateId
  bucketKey : BucketKey
  variants : List (BucketKey × String)
  actor : String
  reason : String
  nowMs : String

/-- The script's arguments for a record. -/
def publishCall (json : RecordJson) (record : SchemaRecord) (context : PublishContext) :
    PublishCall where
  schemaJson := json.toString record
  canonical := record.canonical
  canonicalizer := record.canonicalizer
  familyId := record.familyId
  schemaId := record.schemaId
  aliasFrom := context.aliasFrom
  bucketKey := context.bucketKey
  variants := context.variants
  actor := context.actor
  reason := context.reason
  nowMs := context.nowMs

/-- `publish`: the script's version is cut to 32 bits. -/
def publishRecord (json : RecordJson) (vault : SchemaVault) (record : SchemaRecord)
    (context : PublishContext) : Except PublishError ℕ × SchemaVault :=
  let result := publishScript vault.registry (publishCall json record context)
  (result.1.map (· % 2 ^ 32), { vault with registry := result.2 })

inductive NameWriteOutcome where
  | applied
  | skippedHuman
  | notFound
deriving DecidableEq

/-- A name given by a human is only replaced by another one. -/
def setSchemaName (vault : SchemaVault) (id : SchemaId) (label source metadata : String) :
    NameWriteOutcome × SchemaVault :=
  if (vault.registry.schemas id).isNone then (.notFound, vault)
  else if source ≠ "human" ∧ (vault.names id).source = some "human" then (.skippedHuman, vault)
  else
    let described := if metadata = "" then none else some metadata
    (.applied, { vault with
      names := Function.update vault.names id ⟨some label, some source, described⟩ })

inductive VaultEvent where
  | publish (record : SchemaRecord) (context : PublishContext)
  | setName (id : SchemaId) (label source metadata : String)

/-- Any records are published and any schemas are named, in any order. -/
def vaultMachine (json : RecordJson) : Machine SchemaVault VaultEvent where
  init := .empty
  step vault
    | .publish record context => some (publishRecord json vault record context).2
    | .setName id label source metadata => some (setSchemaName vault id label source metadata).2

/-- What is published can be deserialized. -/
def readsBackEvent (json : RecordJson) (_ : SchemaVault) : VaultEvent → Prop
  | .publish record _ => json.ReadsBack record
  | .setName .. => True

/-- A read gives the family, the version and the canonical text of a record. -/
def TellsTruth (json : RecordJson) (vault : SchemaVault) (record : SchemaRecord) : Prop :=
  ∃ stored, getSchema json vault record.schemaId = .ok (some stored) ∧
    stored.familyId = record.familyId ∧ stored.version = record.version ∧
    stored.canonical = record.canonical

/-- The schema is new, or it is stored under this family; its version fits in 32 bits. -/
def SlotFits (registry : RegistryStore) (id : SchemaId) (family : FamilyId) : Prop :=
  match registry.schemas id with
  | none => nextVersion registry family + 1 < 2 ^ 32
  | some hash => hash.family = family ∧ hash.version < 2 ^ 32

instance (registry : RegistryStore) (id : SchemaId) (family : FamilyId) :
    Decidable (SlotFits registry id family) := by
  unfold SlotFits
  split <;> infer_instance

/-! ## What the vault keeps -/

/-- The versioned store, whose texts are those of records with the family and the canonical text of
their hash. -/
structure Faithful (json : RecordJson) (vault : SchemaVault) : Prop where
  versioned : Versioned vault.registry
  stored : ∀ id hash, vault.registry.schemas id = some hash →
    ∃ record, json.fromStr hash.record = some record ∧ record.familyId = hash.family ∧
      record.canonical = hash.canonical

theorem faithful_empty (json : RecordJson) : Faithful json .empty where
  versioned := versioned_empty
  stored id hash hhash := by
    cases hhash

section

variable {json : RecordJson} {vault : SchemaVault} {record : SchemaRecord}
  {context : PublishContext}

/-- What a publication leaves in the registry: the hash that was there with new variants, or a new
one made from the record. -/
theorem Faithful.hash_of_published (hfaithful : Faithful json vault)
    {version : ℕ} {next : RegistryStore}
    (hpublished : Published vault.registry (publishCall json record context) version next) :
    ∃ hash, next.schemas record.schemaId = some hash ∧ hash.canonical = record.canonical ∧
      hash.version = version ∧
      ((vault.registry.schemas record.schemaId = none ∧ hash.record = json.toString record ∧
          hash.family = record.familyId ∧
          version = nextVersion vault.registry record.familyId + 1) ∨
        ∃ old, vault.registry.schemas record.schemaId = some old ∧ hash.record = old.record ∧
          hash.family = old.family ∧ hash.version = old.version) := by
  have hmarker := hfaithful.versioned.published_eq record.schemaId
  cases hold : vault.registry.schemas record.schemaId with
  | none =>
      rw [hold] at hmarker
      refine ⟨_, hpublished.schemas_of_fresh hold, rfl, rfl, .inl ⟨rfl, rfl, rfl, ?_⟩⟩
      rw [hpublished.version_eq, (allocateVersion_of_fresh hmarker).1]
      rfl
  | some old =>
      rw [hold] at hmarker
      rcases hpublished.schemas_of_some hold with ⟨variants, hnext⟩
      refine ⟨_, hnext, (hpublished.identity old hold).1, ?_, .inr ⟨old, rfl, rfl, rfl, rfl⟩⟩
      rw [hpublished.version_eq, allocateVersion_of_published hmarker]

theorem Faithful.publish (hfaithful : Faithful json vault) (hjson : json.ReadsBack record) :
    Faithful json (publishRecord json vault record context).2 := by
  refine ⟨hfaithful.versioned.publish _, fun id hash hhash ↦ ?_⟩
  change (publishScript vault.registry (publishCall json record context)).2.schemas id = some hash
    at hhash
  rcases publishScript_cases vault.registry (publishCall json record context) with
    ⟨error, herror⟩ | ⟨version, next, hok, hpublished⟩
  · rw [herror] at hhash
    exact hfaithful.stored id hash hhash
  rw [hok] at hhash
  by_cases hid : id = record.schemaId
  · subst hid
    rcases hfaithful.hash_of_published hpublished with ⟨kept, hkept, hcanonical, -, hcases⟩
    obtain rfl : kept = hash := Option.some.inj (hkept.symm.trans hhash)
    rcases hcases with ⟨-, htext, hfamily, -⟩ | ⟨old, hold, htext, hfamily, -⟩
    · exact ⟨record, htext ▸ hjson, hfamily.symm, hcanonical.symm⟩
    · rcases hfaithful.stored _ old hold with ⟨stored, hread, hstoredFamily, hstoredCanonical⟩
      refine ⟨stored, htext ▸ hread, hstoredFamily.trans hfamily.symm, ?_⟩
      rw [hstoredCanonical, hcanonical]
      exact (hpublished.identity old hold).1
  · rw [hpublished.schemas_of_ne hid] at hhash
    exact hfaithful.stored id hash hhash

theorem Faithful.setName (hfaithful : Faithful json vault) (id : SchemaId)
    (label source metadata : String) :
    Faithful json (setSchemaName vault id label source metadata).2 := by
  unfold setSchemaName
  split_ifs
  · exact hfaithful
  · exact hfaithful
  · exact ⟨hfaithful.versioned, hfaithful.stored⟩
  · exact ⟨hfaithful.versioned, hfaithful.stored⟩

theorem faithful_reachable (reached : (vaultMachine json).Reachable (readsBackEvent json) vault) :
    Faithful json vault := by
  refine reached.invariant (faithful_empty json) fun vault event next hfaithful hjson hstep ↦ ?_
  cases event with
  | publish record context =>
      cases hstep
      exact hfaithful.publish hjson
  | setName id label source metadata =>
      cases hstep
      exact hfaithful.setName id label source metadata

/-! ## Reads after a publication -/

theorem overlayName_slot (json : RecordJson) (name : NameFields) (record : SchemaRecord) :
    (overlayName json name record).familyId = record.familyId ∧
      (overlayName json name record).version = record.version ∧
      (overlayName json name record).canonical = record.canonical := by
  unfold overlayName
  split_ifs
  · exact ⟨rfl, rfl, rfl⟩
  · exact ⟨rfl, rfl, rfl⟩

/-- A stored schema is read with the family and the canonical text of its hash, if its version can
be read. -/
theorem Faithful.tellsTruth_iff (hfaithful : Faithful json vault) (record : SchemaRecord)
    {hash : SchemaHash}
    (hhash : vault.registry.schemas record.schemaId = some hash)
    (hcanonical : hash.canonical = record.canonical)
    (hversion : record.version = hash.version % 2 ^ 32) :
    TellsTruth json vault record ↔ hash.family = record.familyId ∧ hash.version < 2 ^ 32 := by
  rcases hfaithful.stored _ hash hhash with ⟨stored, hread, hfamily, htext⟩
  unfold TellsTruth getSchema recordFromHash
  simp only [hhash, hread]
  by_cases hfits : hash.version < 2 ^ 32
  · rw [if_pos hfits]
    simp only [Except.map, Except.ok.injEq, Option.some.injEq, exists_eq_left']
    rcases overlayName_slot json (vault.names record.schemaId)
      { stored with version := hash.version } with ⟨hsame, hslot, hcontent⟩
    rw [hsame, hslot, hcontent, hversion, Nat.mod_eq_of_lt hfits, ← hfamily]
    constructor
    · rintro ⟨heq, -, -⟩
      exact ⟨heq, hfits⟩
    · rintro ⟨heq, -⟩
      exact ⟨heq, rfl, htext.trans hcanonical⟩
  · rw [if_neg hfits]
    constructor
    · rintro ⟨_, herror, -⟩
      cases herror
    · rintro ⟨-, hlt⟩
      exact absurd hlt hfits

/-- After a publication the record is read as it was reported exactly if its slot fits. -/
theorem Faithful.published_tellsTruth_iff (hfaithful : Faithful json vault)
    (hjson : json.ReadsBack record) {version : ℕ} {next : SchemaVault}
    (hpublish : publishRecord json vault record context = (.ok version, next)) :
    TellsTruth json next { record with version := version } ↔
      SlotFits vault.registry record.schemaId record.familyId := by
  have hnext : (publishRecord json vault record context).2 = next := by rw [hpublish]
  have hkeeps : Faithful json next := hnext ▸ hfaithful.publish hjson
  unfold publishRecord at hpublish
  rcases publishScript_cases vault.registry (publishCall json record context) with
    ⟨error, herror⟩ | ⟨allocated, after, hok, hpublished⟩
  · rw [herror] at hpublish
    cases hpublish
  rw [hok] at hpublish
  cases hpublish
  rcases hfaithful.hash_of_published hpublished with ⟨hash, hhash, hcanonical, hversion, hcases⟩
  have hread := hkeeps.tellsTruth_iff { record with version := allocated % 2 ^ 32 } hhash
    hcanonical (by rw [hversion])
  refine hread.trans ?_
  unfold SlotFits
  rcases hcases with ⟨hold, -, hfamily, hfresh⟩ | ⟨old, hold, -, hfamily, hkept⟩
  · rw [hold]
    simp only [hfamily, true_and, hversion, hfresh]
  · rw [hold, hfamily, hkept]

end

end Deblob.Redis
