import Deblob.Redis.Index
import Deblob.Redis.SchemaRecords

/-!
# Runs of the schema vault

Publications add hashes and members of buckets and never take one away. So what was published stays,
up to its variants, and a hash has the content of the record it was made from.
-/

namespace Deblob.Redis

open Core Lib

/-- What is published can be read back, and its variants are fingerprints. -/
def plainPublications (json : RecordJson) (_ : SchemaVault) : VaultEvent → Prop
  | .publish record context =>
    json.ReadsBack record ∧ ∀ variant ∈ context.variants, '=' ∉ variant.2.toList
  | .setName .. => True

/-- Every schema hash has the text of its own record, and every member of a bucket names a schema
that is there. -/
structure Listable (json : RecordJson) (vault : SchemaVault) : Prop where
  stored : ∀ id hash, vault.registry.schemas id = some hash →
    ∃ record, json.fromStr hash.record = some record ∧ record.schemaId = id ∧
      record.familyId = hash.family ∧ record.canonical = hash.canonical ∧
      record.canonicalizer = hash.canonicalizer
  named : ∀ bucket, ∀ member ∈ vault.registry.index bucket,
    ∃ id, memberSchema member = some id ∧ (vault.registry.schemas id).isSome

/-- What a vault keeps: the members of the buckets, and the hashes up to their variants. -/
structure Keeps (vault later : SchemaVault) : Prop where
  index : ∀ bucket, vault.registry.index bucket ⊆ later.registry.index bucket
  schemas : ∀ id hash, vault.registry.schemas id = some hash →
    ∃ variants, later.registry.schemas id = some { hash with variants }

/-- Every version can be read. -/
def VersionsFit (vault : SchemaVault) : Prop :=
  ∀ id hash, vault.registry.schemas id = some hash → hash.version < 2 ^ 32

section

variable {json : RecordJson} {vault next : SchemaVault} {event : VaultEvent}

theorem Keeps.refl (vault : SchemaVault) : Keeps vault vault where
  index _ := Finset.Subset.refl _
  schemas _ hash hhash := ⟨hash.variants, hhash⟩

theorem Keeps.trans {middle : SchemaVault} (hfirst : Keeps vault middle)
    (hsecond : Keeps middle next) : Keeps vault next where
  index bucket := (hfirst.index bucket).trans (hsecond.index bucket)
  schemas id hash hhash := by
    rcases hfirst.schemas id hash hhash with ⟨variants, hmiddle⟩
    rcases hsecond.schemas id _ hmiddle with ⟨later, hlater⟩
    exact ⟨later, hlater⟩

/-- A step of the vault is a publication that succeeds, or it leaves the registry alone. -/
theorem vaultMachine_cases (hstep : (vaultMachine json).step vault event = some next) :
    next.registry = vault.registry ∨ ∃ record context version, event = .publish record context ∧
      Published vault.registry (publishCall json record context) version next.registry := by
  cases event with
  | publish record context =>
      cases hstep
      rcases publishScript_cases vault.registry (publishCall json record context) with
        ⟨error, herror⟩ | ⟨version, after, hok, hpublished⟩
      · exact .inl (congrArg Prod.snd herror)
      · refine .inr ⟨record, context, version, rfl, ?_⟩
        have hregistry : (publishRecord json vault record context).2.registry = after :=
          congrArg Prod.snd hok
        exact hregistry ▸ hpublished
  | setName id label source metadata =>
      cases hstep
      left
      unfold setSchemaName
      split_ifs <;> rfl

theorem keeps_step (hstep : (vaultMachine json).step vault event = some next) :
    Keeps vault next := by
  rcases vaultMachine_cases hstep with hsame | ⟨record, context, version, -, hpublished⟩
  · constructor
    · intro bucket
      rw [hsame]
    · intro id hash hhash
      rw [hsame]
      exact ⟨hash.variants, hhash⟩
  · exact ⟨fun bucket member hmember ↦ (hpublished.index bucket member).mpr (.inl hmember),
      fun id hash hhash ↦ hpublished.schemas_of_some hhash⟩

theorem keeps_of_reachable
    (reached : (vaultMachine json).ReachableFrom (plainPublications json) vault next) :
    Keeps vault next := by
  refine reached.invariant (.refl vault) fun state event later hkeeps _ hstep ↦ ?_
  exact hkeeps.trans (keeps_step hstep)

/-- The schema of a publication has a hash with the content of the record. -/
theorem Listable.step (hlistable : Listable json vault)
    (hallowed : plainPublications json vault event)
    (hstep : (vaultMachine json).step vault event = some next) : Listable json next := by
  rcases vaultMachine_cases hstep with hsame | ⟨record, context, version, rfl, hpublished⟩
  · exact ⟨hsame ▸ hlistable.stored, hsame ▸ hlistable.named⟩
  have hkeeps := keeps_step hstep
  constructor
  · intro id hash hhash
    cases hold : vault.registry.schemas id with
    | some old =>
        rcases hpublished.schemas_of_some hold with ⟨variants, hnext⟩
        obtain rfl : { old with variants } = hash := Option.some.inj (hnext.symm.trans hhash)
        exact hlistable.stored id old hold
    | none =>
        by_cases hid : id = record.schemaId
        · subst hid
          obtain rfl := Option.some.inj ((hpublished.schemas_of_fresh hold).symm.trans hhash)
          exact ⟨record, hallowed.1, rfl, rfl, rfl, rfl⟩
        · rw [hpublished.schemas_of_ne hid, hold] at hhash
          cases hhash
  · intro bucket member hmember
    have hown : (next.registry.schemas record.schemaId).isSome := by
      rw [hpublished.schemas]
      simp [RegistryStore.writeSchema, publishCall]
    rcases (hpublished.index bucket member).mp hmember with
      hold | ⟨-, rfl⟩ | ⟨variant, hvariant, -, rfl⟩
    · rcases hlistable.named bucket member hold with ⟨id, hnames, hsome⟩
      rcases Option.isSome_iff_exists.mp hsome with ⟨hash, hhash⟩
      rcases hkeeps.schemas id hash hhash with ⟨variants, hnext⟩
      exact ⟨id, hnames, hnext ▸ rfl⟩
    · exact ⟨record.schemaId, memberSchema_variantMember (DigestId.eq_notMem_body _), hown⟩
    · exact ⟨record.schemaId, memberSchema_variantMember (hallowed.2 variant hvariant), hown⟩

theorem listable_reachable
    (reached : (vaultMachine json).Reachable (plainPublications json) vault) :
    Listable json vault := by
  have hempty : Listable json .empty := by
    constructor
    · intro id hash hhash
      cases hhash
    · intro bucket member hmember
      exact absurd hmember (Finset.notMem_empty member)
  refine reached.invariant hempty fun state event later hlistable hallowed hstep ↦ ?_
  exact hlistable.step hallowed hstep

/-- What a read of a schema with this hash returns, up to the provenance and what the index does not
know. -/
structure ReadAs (record : SchemaRecord) (id : SchemaId) (hash : SchemaHash) : Prop where
  schemaId : record.schemaId = id
  familyId : record.familyId = hash.family
  version : record.version = hash.version
  canonical : record.canonical = hash.canonical
  canonicalizer : record.canonicalizer = hash.canonicalizer

theorem overlayName_readAs {name : NameFields} {record : SchemaRecord} {id : SchemaId}
    {hash : SchemaHash} (hrecord : ReadAs record id hash) :
    ReadAs (overlayName json name record) id hash := by
  unfold overlayName
  split_ifs
  · exact hrecord
  · exact ⟨hrecord.schemaId, hrecord.familyId, hrecord.version, hrecord.canonical,
      hrecord.canonicalizer⟩

/-- A schema that is there is read as it is stored, if its version can be read. -/
theorem Listable.getSchema_eq (hlistable : Listable json vault) {id : SchemaId} {hash : SchemaHash}
    (hhash : vault.registry.schemas id = some hash) (hfits : hash.version < 2 ^ 32) :
    ∃ record, getSchema json vault id = .ok (some record) ∧ ReadAs record id hash := by
  rcases hlistable.stored id hash hhash with
    ⟨stored, hread, hid, hfamily, hcanonical, hcanonicalizer⟩
  refine ⟨overlayName json (vault.names id) { stored with version := hash.version }, ?_, ?_⟩
  · unfold getSchema recordFromHash
    simp only [hhash, hread, if_pos hfits, Except.map]
  · exact overlayName_readAs ⟨hid, hfamily, rfl, hcanonical, hcanonicalizer⟩

/-- What is read is stored like that. -/
theorem Listable.readAs (hlistable : Listable json vault) {id : SchemaId} {record : SchemaRecord}
    (hread : getSchema json vault id = .ok (some record)) :
    ∃ hash, vault.registry.schemas id = some hash ∧ ReadAs record id hash := by
  cases hhash : vault.registry.schemas id with
  | none =>
      rw [getSchema, hhash] at hread
      cases hread
  | some hash =>
      by_cases hfits : hash.version < 2 ^ 32
      · rcases hlistable.getSchema_eq hhash hfits with ⟨found, hfound, hrecord⟩
        rw [hread] at hfound
        cases hfound
        exact ⟨hash, rfl, hrecord⟩
      · rcases hlistable.stored id hash hhash with ⟨stored, htext, -⟩
        unfold getSchema recordFromHash at hread
        simp only [hhash, htext, if_neg hfits] at hread
        cases hread

/-- A publication leaves a hash with the canonical text of the record, and the member of the schema
in the bucket of the call. -/
theorem published_slot {record : SchemaRecord} {context : PublishContext} {version : ℕ}
    (hpublish : publishRecord json vault record context = (.ok version, next)) :
    bucketMember record.schemaId ∈ next.registry.index context.bucketKey ∧
      ∃ hash, next.registry.schemas record.schemaId = some hash ∧
        hash.canonical = record.canonical := by
  unfold publishRecord at hpublish
  rcases publishScript_cases vault.registry (publishCall json record context) with
    ⟨error, herror⟩ | ⟨allocated, after, hok, hpublished⟩
  · rw [herror] at hpublish
    cases hpublish
  rw [hok] at hpublish
  cases hpublish
  constructor
  · exact (hpublished.index _ _).mpr (.inr (.inl ⟨rfl, rfl⟩))
  · change ∃ hash, after.schemas record.schemaId = some hash ∧ hash.canonical = record.canonical
    cases hold : vault.registry.schemas record.schemaId with
    | none => exact ⟨_, hpublished.schemas_of_fresh hold, rfl⟩
    | some old =>
        rcases hpublished.schemas_of_some hold with ⟨variants, hnext⟩
        exact ⟨_, hnext, (hpublished.identity old hold).1⟩

end

end Deblob.Redis
