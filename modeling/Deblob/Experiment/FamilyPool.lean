import Deblob.Fingerprint.Bucket
import Deblob.Lib.Groups
import Deblob.Monoid.Generalized
import Deblob.Retrieval.Rank
import Mathlib.Data.Prod.Lex
import Mathlib.Logic.Function.Basic

/-!
# The pool of families

The records of an experiment are pooled by the family their source names and by their structure:
every new structure of a family is its next version. The family of a schema is looked up by the
schema alone, so a structure that two families share belongs to the first one of them.
-/

namespace Deblob.Experiment

open Core Lib Deblob.Monoid
open Fingerprint (hexChars)
open Retrieval (FamilyRef)

/-- A record of a source, reduced to its family, its place in time and its profile. -/
structure FamilyMember where
  familyName : String
  orderKey : String
  profile : Profile

/-- The families in order; the gold schemas are found by the family and the fingerprint. -/
structure FamilyPool where
  families : List FamilyRef
  goldSchemaOf : List ((String × Digest) × SchemaId)

/-- The hyphenated form of 16 bytes. -/
def uuidText (bytes : Bytes) : String :=
  String.ofList (hexChars (bytes.take 4) ++ '-' :: (hexChars ((bytes.drop 4).take 2) ++ '-' ::
    (hexChars ((bytes.drop 6).take 2) ++ '-' :: (hexChars ((bytes.drop 8).take 2) ++ '-' ::
      hexChars ((bytes.drop 10).take 6)))))

section

variable (sha256 : Bytes → Digest)

def deterministicFamilyId (seed : String) : FamilyId :=
  ⟨"fam_" ++ uuidText ((sha256 (utf8 seed)).toList.take 16)⟩

def schemaIdOf (profile : Profile) : SchemaId :=
  DigestId.fromDigest (profile.generalizedFingerprint sha256)

/-- The pool so far, and how many versions a family has. -/
structure PoolState where
  pool : FamilyPool
  nextVersion : String → ℕ

def poolMember (state : PoolState) (member : FamilyMember) : PoolState :=
  let fingerprint := member.profile.generalizedFingerprint sha256
  let key := (member.familyName, fingerprint)
  if (state.pool.goldSchemaOf.lookup key).isSome then state
  else
    let version := state.nextVersion member.familyName + 1
    let schemaId := DigestId.fromDigest fingerprint
    { pool :=
        { families := state.pool.families ++
            [⟨deterministicFamilyId sha256 member.familyName, schemaId, version,
              member.profile.generalizedCanonicalJson⟩]
          goldSchemaOf := state.pool.goldSchemaOf ++ [(key, schemaId)] }
      nextVersion := Function.update state.nextVersion member.familyName version }

/-- The members are pooled by family and time. -/
def buildFamilyPool (members : List FamilyMember) : FamilyPool :=
  ((sortOn (fun member ↦ toLex (member.familyName, member.orderKey)) members).foldl
    (poolMember sha256) ⟨⟨[], []⟩, fun _ ↦ 0⟩).pool

/-- The first family that has the schema. -/
def FamilyPool.familyIdOf (pool : FamilyPool) (schemaId : SchemaId) : Option FamilyId :=
  (pool.families.find? fun family ↦ family.schemaId = schemaId).map (·.familyId)

/-! ## What is in the pool -/

/-- The families of the pool are those of the members, and every schema of a member is there. -/
structure PoolInv (members : List FamilyMember) (pool : FamilyPool) : Prop where
  origin : ∀ family ∈ pool.families, ∃ member ∈ members,
    schemaIdOf sha256 member.profile = family.schemaId ∧
      deterministicFamilyId sha256 member.familyName = family.familyId
  gold : ∀ entry ∈ pool.goldSchemaOf, ∃ family ∈ pool.families,
    family.schemaId = DigestId.fromDigest entry.1.2
  pooled : ∀ member ∈ members, ∃ family ∈ pool.families,
    family.schemaId = schemaIdOf sha256 member.profile

variable {sha256}

theorem schemaIdOf_eq (sha256 : Bytes → Digest) (profile : Profile) : schemaIdOf sha256 profile =
    DigestId.fromDigest (profile.generalizedFingerprint sha256) := by
  rw [schemaIdOf]

theorem PoolInv.poolMember {members : List FamilyMember} {state : PoolState}
    (hinv : PoolInv sha256 members state.pool) (member : FamilyMember) :
    PoolInv sha256 (members ++ [member]) (poolMember sha256 state member).pool := by
  have horigin : ∀ family ∈ state.pool.families, ∃ found ∈ members ++ [member],
      schemaIdOf sha256 found.profile = family.schemaId ∧
        deterministicFamilyId sha256 found.familyName = family.familyId := by
    intro family hfamily
    rcases hinv.origin family hfamily with ⟨found, hfound, heq⟩
    exact ⟨found, List.mem_append_left _ hfound, heq⟩
  have hschema := schemaIdOf_eq sha256 member.profile
  unfold Experiment.poolMember
  generalize member.profile.generalizedFingerprint sha256 = fingerprint at hschema ⊢
  dsimp only
  split_ifs with hseen
  · refine ⟨horigin, hinv.gold, fun other hother ↦ ?_⟩
    rcases List.mem_append.mp hother with hother | hlast
    · exact hinv.pooled other hother
    · rw [List.mem_singleton.mp hlast]
      rcases Option.isSome_iff_exists.mp hseen with ⟨schemaId, hlookup⟩
      rcases List.lookup_eq_some_iff.mp hlookup with ⟨before, after, hgold, _⟩
      rw [hschema]
      refine hinv.gold ((member.familyName, fingerprint), schemaId) ?_
      rw [hgold]
      exact List.mem_append_right _ List.mem_cons_self
  · constructor
    · intro family hfamily
      rcases List.mem_append.mp hfamily with hfamily | hlast
      · exact horigin family hfamily
      · rw [List.mem_singleton.mp hlast]
        exact ⟨member, by simp, hschema, rfl⟩
    · intro entry hentry
      rcases List.mem_append.mp hentry with hentry | hlast
      · rcases hinv.gold entry hentry with ⟨family, hfamily, heq⟩
        exact ⟨family, List.mem_append_left _ hfamily, heq⟩
      · rw [List.mem_singleton.mp hlast]
        exact ⟨_, List.mem_append_right _ (List.mem_singleton_self _), rfl⟩
    · intro other hother
      rcases List.mem_append.mp hother with hother | hlast
      · rcases hinv.pooled other hother with ⟨family, hfamily, heq⟩
        exact ⟨family, List.mem_append_left _ hfamily, heq⟩
      · rw [List.mem_singleton.mp hlast]
        exact ⟨_, List.mem_append_right _ (List.mem_singleton_self _), hschema.symm⟩

theorem poolInv_buildFamilyPool (sha256 : Bytes → Digest) (members : List FamilyMember) :
    PoolInv sha256 members (buildFamilyPool sha256 members) := by
  have hfold (members : List FamilyMember) : PoolInv sha256 members
      (members.foldl (poolMember sha256) ⟨⟨[], []⟩, fun _ ↦ 0⟩).pool := by
    induction members using List.reverseRecOn with
    | nil => exact ⟨nofun, nofun, nofun⟩
    | append_singleton members member ih =>
        rw [List.foldl_append, List.foldl_cons, List.foldl_nil]
        exact ih.poolMember member
  have hsorted := hfold (sortOn (fun member ↦ toLex (member.familyName, member.orderKey)) members)
  refine ⟨fun family hfamily ↦ ?_, hsorted.gold, fun member hmember ↦
    hsorted.pooled member (mem_sortOn.mpr hmember)⟩
  rcases hsorted.origin family hfamily with ⟨member, hmember, heq⟩
  exact ⟨member, mem_sortOn.mp hmember, heq⟩

/-- The schema of a member is looked up as a schema of a family that has it. -/
theorem familyIdOf_buildFamilyPool {members : List FamilyMember} {member : FamilyMember}
    (hmember : member ∈ members) :
    ∃ owner ∈ members, schemaIdOf sha256 owner.profile = schemaIdOf sha256 member.profile ∧
      (buildFamilyPool sha256 members).familyIdOf (schemaIdOf sha256 member.profile) =
        some (deterministicFamilyId sha256 owner.familyName) := by
  have hinv := poolInv_buildFamilyPool sha256 members
  rcases hinv.pooled member hmember with ⟨family, hfamily, hschema⟩
  cases hfind : (buildFamilyPool sha256 members).families.find? fun family ↦
      family.schemaId = schemaIdOf sha256 member.profile with
  | none =>
      have hnone := List.find?_eq_none.mp hfind family hfamily
      exact absurd (decide_eq_true hschema) hnone
  | some found =>
      rcases hinv.origin found (List.mem_of_find?_eq_some hfind) with ⟨owner, howner, heq, hid⟩
      have hfound : found.schemaId = schemaIdOf sha256 member.profile := by
        simpa using List.find?_some hfind
      refine ⟨owner, howner, heq.trans hfound, ?_⟩
      rw [FamilyPool.familyIdOf, hfind, hid]
      rfl

end

end Deblob.Experiment
