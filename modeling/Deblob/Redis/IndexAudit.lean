import Deblob.Redis.Clusters
import Deblob.Redis.IndexRebuild
import Mathlib.Data.Finset.Image

/-!
# The audit of the structural index

`verify_index` walks the index in two directions: each member of a bucket has to name a schema that
exists, and each schema has to be a member of the bucket that its hash records. A rebuilt index
passes. An index that passes may still lack variants or hold members in the wrong bucket, and the
listing is not looked at.
-/

namespace Deblob.Redis

open Core Lib

/-- The field of a schema hash that the audit reads. -/
structure AuditedHash where
  bucket : Option String

/-- The sets and the schema hashes by the texts of their keys; any set may hold anything. -/
structure IndexSnapshot where
  sets : String → Finset String
  schemas : String → Option AuditedHash

/-- The source formats each problem as a text. -/
inductive IndexProblem where
  | malformedMember (bucket member : String)
  | missingSchema (bucket member schema : String)
  | noBucket (schema : String)
  | invalidId (schema : String)
  | missingMember (schema bucket : String)
deriving DecidableEq

/-- What `SCAN` and `SMEMBERS` return, in whatever order and however often. -/
structure AuditScan where
  buckets : List String
  members : String → List String
  schemas : List String

def IsIndexKey (key : String) : Prop := indexPrefix.toList <+: key.toList

instance (key : String) : Decidable (IsIndexKey key) :=
  inferInstanceAs (Decidable (_ <+: _))

def memberProblem (snapshot : IndexSnapshot) (bucket member : String) : Option IndexProblem :=
  match splitOnce '=' member with
  | none => some (.malformedMember bucket member)
  | some (_, schema) =>
    if (snapshot.schemas schema).isSome then none
    else some (.missingSchema bucket member schema)

def schemaProblem (snapshot : IndexSnapshot) (schema : String) : Option IndexProblem :=
  match (snapshot.schemas schema).bind AuditedHash.bucket with
  | none => some (.noBucket schema)
  | some bucket =>
    match DigestId.parse schema with
    | none => some (.invalidId schema)
    | some id =>
      if bucketMember id ∈ snapshot.sets bucket then none
      else some (.missingMember schema bucket)

/-- `verify_index`: first from the buckets to the schemas, then back. -/
def verifyIndex (snapshot : IndexSnapshot) (scan : AuditScan) : List IndexProblem :=
  (scan.buckets.flatMap fun bucket ↦
      (scan.members bucket).filterMap (memberProblem snapshot bucket)) ++
    scan.schemas.filterMap (schemaProblem snapshot)

/-- A scan with nobody else at work returns exactly what is there. -/
structure AuditScan.Complete (scan : AuditScan) (snapshot : IndexSnapshot) : Prop where
  buckets : ∀ bucket, bucket ∈ scan.buckets ↔ IsIndexKey bucket ∧ snapshot.sets bucket ≠ ∅
  members : ∀ bucket ∈ scan.buckets, (scan.members bucket).toFinset = snapshot.sets bucket
  schemas : ∀ schema, schema ∈ scan.schemas ↔ (snapshot.schemas schema).isSome

/-- The member has a separator and names a schema that exists. -/
def PointsAtSchema (snapshot : IndexSnapshot) (member : String) : Prop :=
  ∃ text schema, splitOnce '=' member = some (text, schema) ∧ (snapshot.schemas schema).isSome

/-- The schema has a valid id and is a member of the bucket that its hash records. -/
def FiledAsRecorded (snapshot : IndexSnapshot) (schema : String) : Prop :=
  ∃ id bucket, DigestId.parse schema = some id ∧
    (snapshot.schemas schema).bind AuditedHash.bucket = some bucket ∧
    bucketMember id ∈ snapshot.sets bucket

/-- Every member of a bucket names a schema, and every schema is where its hash says. -/
structure Audited (snapshot : IndexSnapshot) : Prop where
  points : ∀ bucket, IsIndexKey bucket → ∀ member ∈ snapshot.sets bucket,
    PointsAtSchema snapshot member
  filed : ∀ schema, (snapshot.schemas schema).isSome → FiledAsRecorded snapshot schema

/-! ## What the audit finds -/

section

variable {snapshot : IndexSnapshot} {scan : AuditScan}

theorem memberProblem_eq_none {bucket member : String} :
    memberProblem snapshot bucket member = none ↔ PointsAtSchema snapshot member := by
  unfold memberProblem PointsAtSchema
  cases splitOnce '=' member with
  | none => simp
  | some halves => simp [Prod.ext_iff, Option.ne_none_iff_isSome]

theorem schemaProblem_eq_none {schema : String} :
    schemaProblem snapshot schema = none ↔ FiledAsRecorded snapshot schema := by
  unfold schemaProblem FiledAsRecorded
  cases (snapshot.schemas schema).bind AuditedHash.bucket with
  | none => simp
  | some bucket =>
      cases (DigestId.parse schema : Option SchemaId) with
      | none => simp
      | some id => simp

/-- The audit finds nothing exactly if both directions hold. -/
theorem verifyIndex_eq_nil (hscan : scan.Complete snapshot) :
    verifyIndex snapshot scan = [] ↔ Audited snapshot := by
  rw [verifyIndex, List.append_eq_nil_iff, List.flatMap_eq_nil_iff, List.filterMap_eq_nil_iff]
  simp only [List.filterMap_eq_nil_iff, memberProblem_eq_none, schemaProblem_eq_none]
  constructor
  · rintro ⟨hpoints, hfiled⟩
    constructor
    case points =>
      intro bucket hkey member hmember
      have hbucket : bucket ∈ scan.buckets :=
        (hscan.buckets bucket).mpr ⟨hkey, Finset.ne_empty_of_mem hmember⟩
      apply hpoints bucket hbucket
      rwa [← List.mem_toFinset, hscan.members bucket hbucket]
    case filed => exact fun schema hschema ↦ hfiled schema ((hscan.schemas schema).mpr hschema)
  · intro haudited
    constructor
    · intro bucket hbucket member hmember
      apply haudited.points bucket ((hscan.buckets bucket).mp hbucket).1
      rwa [← hscan.members bucket hbucket, List.mem_toFinset]
    · exact fun schema hschema ↦ haudited.filed schema ((hscan.schemas schema).mp hschema)

end

/-! ## The audit of a rebuilt index -/

/-- The hashes of published schemas. -/
def publishedHashes (store : RegistryStore) (schema : String) : Option AuditedHash :=
  ((DigestId.parse schema).bind store.schemas).map fun hash ↦ ⟨some hash.bucket.text⟩

/-- The sets that a rebuild leaves under the index keys. -/
def rebuiltSet (rebuilt : RegistryStore) (key : String) : Finset String :=
  (BucketKey.ofText key).elim ∅ rebuilt.index

/-- The index keys and the listing are what the rebuild writes. -/
def AgreesWithRebuild (snapshot : IndexSnapshot) (rebuilt : RegistryStore) : Prop :=
  (∀ key, IsIndexKey key → snapshot.sets key = rebuiltSet rebuilt key) ∧
    snapshot.sets schemaIndexKey = rebuilt.listing.image DigestId.asStr

/-- The variants of a schema are recorded by the texts of shape digests. -/
def DigestVariants (store : RegistryStore) : Prop :=
  ∀ id hash, store.schemas id = some hash → ∀ variant ∈ hash.variants,
    ∃ digest, variant.2 = digestBody digest

theorem eq_notMem_recorded {store : RegistryStore} (hvariants : DigestVariants store)
    {id : SchemaId} {entry : BucketKey × String} (hentry : entry ∈ recorded store id) :
    '=' ∉ entry.2.toList := by
  unfold recorded at hentry
  cases hhash : store.schemas id with
  | none => simp [hhash] at hentry
  | some hash =>
      rw [hhash, Option.map_some, Option.getD_some, SchemaHash.entries, List.mem_cons] at hentry
      rcases hentry with rfl | hvariant
      · exact id.eq_notMem_body
      · rcases hvariants id hash hhash entry hvariant with ⟨digest, hdigest⟩
        rw [hdigest]
        exact eq_notMem_digestBody digest

theorem publishedHashes_asStr (store : RegistryStore) (id : SchemaId) :
    publishedHashes store id.asStr =
      (store.schemas id).map fun hash ↦ ⟨some hash.bucket.text⟩ := by
  rw [publishedHashes, DigestId.parse_asStr]
  rfl

theorem isSome_publishedHashes {store : RegistryStore} {keys : List SchemaId}
    (hkeys : ∀ id, id ∈ keys ↔ (store.schemas id).isSome) (schema : String) :
    schema ∈ keys.map DigestId.asStr ↔ (publishedHashes store schema).isSome := by
  rw [publishedHashes, Option.isSome_map, List.mem_map, Option.isSome_bind]
  constructor
  · rintro ⟨id, hid, rfl⟩
    rw [DigestId.parse_asStr]
    exact (hkeys id).mp hid
  · intro hstored
    cases hparse : (DigestId.parse schema : Option SchemaId) with
    | none => simp [hparse] at hstored
    | some id =>
        rw [hparse] at hstored
        exact ⟨id, (hkeys id).mpr hstored, DigestId.asStr_of_parse hparse⟩

/-- A rebuilt index passes the audit. -/
theorem audited_of_agreesWithRebuild {snapshot : IndexSnapshot} {store : RegistryStore}
    {keys : List SchemaId} (hhashes : snapshot.schemas = publishedHashes store)
    (hkeys : ∀ id, id ∈ keys ↔ (store.schemas id).isSome) (hvariants : DigestVariants store)
    (hagrees : AgreesWithRebuild snapshot (rebuildIndex store keys)) : Audited snapshot := by
  have hindex := (rebuildIndex_spec store keys).2
  constructor
  case points =>
    intro bucket hkey member hmember
    rw [hagrees.1 bucket hkey, rebuiltSet] at hmember
    cases hbucket : BucketKey.ofText bucket with
    | none => simp [hbucket] at hmember
    | some key =>
        rw [hbucket, Option.elim_some, hindex] at hmember
        rcases hmember with ⟨id, hid, entry, hentry, -, rfl⟩
        refine ⟨entry.2, id.asStr, splitOnce_append (eq_notMem_recorded hvariants hentry) _, ?_⟩
        rw [hhashes, publishedHashes_asStr, Option.isSome_map]
        exact (hkeys id).mp hid
  case filed =>
    intro schema hschema
    rw [hhashes, publishedHashes, Option.isSome_map] at hschema
    rcases Option.isSome_iff_exists.mp hschema with ⟨hash, hhash⟩
    rcases Option.bind_eq_some_iff.mp hhash with ⟨id, hparse, hstored⟩
    refine ⟨id, hash.bucket.text, hparse, ?_, ?_⟩
    · rw [hhashes, publishedHashes, hhash]
      rfl
    · rw [hagrees.1 _ hash.bucket.indexed, rebuiltSet, BucketKey.ofText_text, Option.elim_some,
        hindex]
      refine ⟨id, (hkeys id).mpr (by rw [hstored]; rfl), (hash.bucket, id.body), ?_, rfl, rfl⟩
      rw [recorded_eq hstored]
      exact List.mem_cons_self

/-- The audit finds nothing exactly if both directions hold, as they do after a rebuild. -/
theorem verify_index_audits (snapshot : IndexSnapshot) (scan : AuditScan)
    (hscan : scan.Complete snapshot) :
    (verifyIndex snapshot scan = [] ↔ Audited snapshot) ∧
      ∀ store keys, snapshot.schemas = publishedHashes store →
        (∀ id, id ∈ keys ↔ (store.schemas id).isSome) → DigestVariants store →
          AgreesWithRebuild snapshot (rebuildIndex store keys) →
            verifyIndex snapshot scan = [] := by
  have hfinds := verifyIndex_eq_nil hscan
  refine ⟨hfinds, fun store keys hhashes hkeys hvariants hagrees ↦ ?_⟩
  exact hfinds.mpr (audited_of_agreesWithRebuild hhashes hkeys hvariants hagrees)

/-! ## One published schema with one variant -/

def auditedStore : RegistryStore :=
  publishAll .empty [publishedFrom (.replicate 32 1) (digestBody (.replicate 32 3))]

theorem mem_auditedKeys (id : SchemaId) :
    id ∈ [rebuiltSchema] ↔ (auditedStore.schemas id).isSome := by
  have haccepted : (acceptedCalls .empty [publishedFrom (.replicate 32 1)
      (digestBody (.replicate 32 3))]).map PublishCall.schemaId = [rebuiltSchema] := by
    decide +kernel
  rw [auditedStore, (indexedBy_empty.publishAll _).schemas, List.nil_append, ← List.mem_map,
    haccepted]

/-- The published hashes with the given buckets. -/
def auditedSnapshot (buckets : List (String × List String)) : IndexSnapshot where
  sets key := ((buckets.lookup key).getD []).toFinset
  schemas := publishedHashes auditedStore

def auditedScan (buckets : List (String × List String)) : AuditScan where
  buckets := buckets.map Prod.fst
  members key := (buckets.lookup key).getD []
  schemas := [rebuiltSchema.asStr]

theorem auditedScan_complete {buckets : List (String × List String)}
    (hbuckets : ∀ bucket ∈ buckets, IsIndexKey bucket.1 ∧
      ((buckets.lookup bucket.1).getD []).toFinset ≠ ∅) :
    (auditedScan buckets).Complete (auditedSnapshot buckets) where
  buckets bucket := by
    constructor
    · intro hmem
      rcases List.mem_map.mp hmem with ⟨entry, hentry, rfl⟩
      exact hbuckets entry hentry
    · rintro ⟨-, hnonempty⟩
      cases hlookup : buckets.lookup bucket with
      | none => simp [auditedSnapshot, hlookup] at hnonempty
      | some members =>
          rcases List.lookup_eq_some_iff.mp hlookup with ⟨before, after, rfl, -⟩
          simp [auditedScan]
  members _ _ := rfl
  schemas schema := isSome_publishedHashes mem_auditedKeys schema

/-- The members that a rebuild writes. -/
def rebuiltMembers : List (String × List String) :=
  [(rebuiltBucket.text,
    [bucketMember rebuiltSchema, variantMember (digestBody (.replicate 32 3)) rebuiltSchema])]

theorem verify_index_audits_rebuilt : Audited (auditedSnapshot rebuiltMembers) := by
  have hcomplete : (auditedScan rebuiltMembers).Complete (auditedSnapshot rebuiltMembers) :=
    auditedScan_complete (by decide)
  refine (verify_index_audits _ _ hcomplete).1.mp ?_
  decide +kernel

/-- The variant is missing, and the schema's own member is also in a foreign bucket. -/
def driftedMembers : List (String × List String) :=
  [(rebuiltBucket.text, [bucketMember rebuiltSchema]),
    ("deblob:index:9:9:00000000", [bucketMember rebuiltSchema])]

/-- The audit finds nothing in an index that a rebuild would change at every key. -/
theorem verify_index_misses_drift :
    (auditedScan driftedMembers).Complete (auditedSnapshot driftedMembers) ∧
      verifyIndex (auditedSnapshot driftedMembers) (auditedScan driftedMembers) = [] ∧
      (∀ key ∈ [rebuiltBucket.text, "deblob:index:9:9:00000000"],
        (auditedSnapshot driftedMembers).sets key ≠
          rebuiltSet (rebuildIndex auditedStore [rebuiltSchema]) key) ∧
      (auditedSnapshot driftedMembers).sets schemaIndexKey ≠
        (rebuildIndex auditedStore [rebuiltSchema]).listing.image DigestId.asStr := by
  refine ⟨auditedScan_complete (by decide), ?_, ?_, ?_⟩
  · decide +kernel
  · decide +kernel
  · decide +kernel

end Deblob.Redis
