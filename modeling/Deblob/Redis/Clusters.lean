import Deblob.Redis.Evidence
import Deblob.Redis.Index
import Deblob.Monoid.Profile

/-!
# What the cold lane keeps beside the candidates

Cluster aliases point a fingerprint key at a candidate, a set of texts remembers the concrete shapes
of a candidate, and a stream keeps the statistics of its observations. Each write is one command.
-/

namespace Deblob.Redis

open Core Lib
open Deblob.Monoid (Profile)

structure ColdStore where
  evidence : EvidenceStore Profile
  clusters : String → Option CandidateId
  variants : KeyedSets CandidateId String
  stats : CandidateId → List Profile

def ColdStore.empty : ColdStore := ⟨.empty, fun _ ↦ none, fun _ ↦ ∅, fun _ ↦ []⟩

/-- One writing command of an ingest. -/
inductive ColdWrite where
  | upsert (record : CandidateRecord Profile)
  | setCluster (genFp : String) (id : CandidateId)
  | addVariant (id : CandidateId) (variant : BucketKey × String)
  | appendEvidence (id : CandidateId) (stats : Profile)

def ColdWrite.apply (store : ColdStore) : ColdWrite → ColdStore
  | .upsert record => { store with evidence := upsertCandidate store.evidence record }
  | .setCluster genFp id =>
    { store with clusters := Function.update store.clusters genFp (some id) }
  | .addVariant id variant =>
    { store with variants := store.variants.sadd id (encodeVariant variant) }
  | .appendEvidence id stats =>
    { store with stats := Function.update store.stats id (store.stats id ++ [stats]) }

def applyWrites (store : ColdStore) (writes : List ColdWrite) : ColdStore :=
  writes.foldl ColdWrite.apply store

/-- The key of a bucket, read back from its text. -/
def BucketKey.ofText (text : String) : Option BucketKey :=
  if htext : indexPrefix.toList <+: text.toList ∧ '=' ∉ text.toList then
    some ⟨text, htext.1, htext.2⟩
  else none

def decodeVariant (member : String) : Option (BucketKey × String) :=
  (splitOnce '=' member).bind fun (text, fp) ↦ (BucketKey.ofText text).map fun bucket ↦ (bucket, fp)

/-- The variants of a candidate; `members` is what `SMEMBERS` returned, in any order. -/
def getVariants (members : List String) : List (BucketKey × String) :=
  members.filterMap decodeVariant

@[simp]
theorem BucketKey.ofText_text (bucket : BucketKey) : ofText bucket.text = some bucket := by
  rw [ofText, dif_pos ⟨bucket.indexed, bucket.no_separator⟩]

@[simp]
theorem decodeVariant_encodeVariant (variant : BucketKey × String) :
    decodeVariant (encodeVariant variant) = some variant := by
  rw [decodeVariant, splitOnce_encodeVariant]
  change (BucketKey.ofText variant.1.text).map (fun bucket ↦ (bucket, variant.2)) = some variant
  rw [BucketKey.ofText_text]
  rfl

variable {store : ColdStore} {writes : List ColdWrite}

@[simp]
theorem applyWrites_nil : applyWrites store [] = store := rfl

@[simp]
theorem applyWrites_cons (write : ColdWrite) :
    applyWrites store (write :: writes) = applyWrites (write.apply store) writes := rfl

theorem applyWrites_append (later : List ColdWrite) :
    applyWrites store (writes ++ later) = applyWrites (applyWrites store writes) later :=
  List.foldl_append

/-- The records that a list of writes leaves as they are. -/
theorem applyWrites_evidence
    (hwrites : ∀ write ∈ writes, ∀ record, write ≠ .upsert record) :
    (applyWrites store writes).evidence = store.evidence := by
  induction writes generalizing store with
  | nil => rfl
  | cons write writes ih =>
      rcases List.forall_mem_cons.mp hwrites with ⟨hhead, htail⟩
      rw [applyWrites_cons, ih htail]
      cases write with
      | upsert record => exact absurd rfl (hhead record)
      | setCluster | addVariant | appendEvidence => rfl

/-- Writes that set one target under some keys leave every alias as it was, or at the target. -/
theorem applyWrites_clusters {keys : List String} {target : CandidateId}
    (hwrites : ∀ genFp id, .setCluster genFp id ∈ writes → genFp ∈ keys ∧ id = target)
    (key : String) :
    (applyWrites store writes).clusters key = store.clusters key ∨
      (key ∈ keys ∧ (applyWrites store writes).clusters key = some target) := by
  induction writes generalizing store with
  | nil => exact .inl rfl
  | cons write writes ih =>
      have htail : ∀ genFp id, .setCluster genFp id ∈ writes → genFp ∈ keys ∧ id = target :=
        fun genFp id hmem ↦ hwrites genFp id (List.mem_cons_of_mem _ hmem)
      rw [applyWrites_cons]
      rcases @ih (write.apply store) htail with hsame | hset
      · rw [hsame]
        cases write with
        | setCluster genFp id =>
            rcases hwrites genFp id List.mem_cons_self with ⟨hkey, rfl⟩
            change Function.update store.clusters genFp (some id) key = _ ∨
              (key ∈ keys ∧ Function.update store.clusters genFp (some id) key = _)
            by_cases heq : key = genFp
            · rw [heq, Function.update_self]
              exact .inr ⟨hkey, rfl⟩
            · rw [Function.update_of_ne heq]
              exact .inl rfl
        | upsert | addVariant | appendEvidence => exact .inl rfl
      · exact .inr hset

/-- Writes that record one variant forget none and record no other. -/
theorem applyWrites_variants {variant : BucketKey × String}
    (hwrites : ∀ id other, .addVariant id other ∈ writes → other = variant) (id : CandidateId) :
    store.variants id ⊆ (applyWrites store writes).variants id ∧
      ∀ member ∈ (applyWrites store writes).variants id,
        member ∈ store.variants id ∨ member = encodeVariant variant := by
  induction writes generalizing store with
  | nil => exact ⟨Finset.Subset.refl _, fun _ hmember ↦ .inl hmember⟩
  | cons write writes ih =>
      have htail : ∀ id other, .addVariant id other ∈ writes → other = variant :=
        fun id other hmem ↦ hwrites id other (List.mem_cons_of_mem _ hmem)
      rcases @ih (write.apply store) htail with ⟨hkept, hnew⟩
      rw [applyWrites_cons]
      cases write with
      | addVariant target other =>
          have hother := hwrites target other List.mem_cons_self
          constructor
          · intro member hmember
            exact hkept (KeyedSets.mem_sadd.mpr (.inr hmember))
          · intro member hmember
            rcases hnew member hmember with hbefore | heq
            · rcases KeyedSets.mem_sadd.mp hbefore with ⟨-, heq⟩ | hbefore
              · exact .inr (hother ▸ heq)
              · exact .inl hbefore
            · exact .inr heq
      | upsert | setCluster | appendEvidence => exact ⟨hkept, hnew⟩

/-- Setting the same target for a list of keys. -/
theorem clusters_setClusters (keys : List String) (target : CandidateId) (key : String) :
    (applyWrites store (keys.map fun key ↦ .setCluster key target)).clusters key =
      if key ∈ keys then some target else store.clusters key := by
  induction keys generalizing store with
  | nil => rfl
  | cons other keys ih =>
      rw [List.map_cons, applyWrites_cons, ih]
      by_cases hkeys : key ∈ keys
      · rw [if_pos hkeys, if_pos (List.mem_cons_of_mem _ hkeys)]
      · rw [if_neg hkeys]
        change Function.update store.clusters other (some target) key = _
        by_cases hother : key = other
        · rw [hother, Function.update_self, if_pos List.mem_cons_self]
        · rw [Function.update_of_ne hother, if_neg]
          exact fun hmem ↦ (List.mem_cons.mp hmem).elim hother hkeys

theorem variants_setClusters (keys : List String) (target : CandidateId) :
    (applyWrites store (keys.map fun key ↦ .setCluster key target)).variants = store.variants := by
  induction keys generalizing store with
  | nil => rfl
  | cons other keys ih =>
      rw [List.map_cons, applyWrites_cons, ih]
      rfl

end Deblob.Redis
