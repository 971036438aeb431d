import Deblob.Redis.Publish
import Deblob.Lib.Pending
import Mathlib.Data.Finset.Filter

/-!
# Looking up and rebuilding the structural index

A lookup scans one bucket for members that begin with the fingerprint and takes whichever the scan
returns first. `rebuild_index` drops every bucket and restores the members from the schema hashes,
one command at a time, while publications and lookups go on.
-/

namespace Deblob.Redis

open Core Lib

/-- The members a bucket scan for `fp=*` can return. -/
def matchingMembers (store : RegistryStore) (bucket : BucketKey) (fingerprint : SchemaId) :
    Finset String :=
  (store.index bucket).filter fun member ↦
    decide ((fingerprint.body ++ "=").toList <+: member.toList)

/-- The schema a member points at; `none` reports a corrupt member. -/
def memberSchema (member : String) : Option SchemaId :=
  (splitOnce '=' member).bind fun (_, schema) ↦ DigestId.parse schema

/-- Everything a schema hash says about the index: its own member and its variants. -/
def SchemaHash.entries (hash : SchemaHash) (id : SchemaId) : List (BucketKey × String) :=
  (hash.bucket, id.body) :: hash.variants

def recorded (store : RegistryStore) (id : SchemaId) : List (BucketKey × String) :=
  ((store.schemas id).map (SchemaHash.entries · id)).getD []

/-- The text of one entry of the `variants` field. -/
def encodeVariant (variant : BucketKey × String) : String := variant.1.text ++ "=" ++ variant.2

/-- Decoding the field gives back the bucket and the fingerprint of every entry. -/
theorem splitOnce_encodeVariant (variant : BucketKey × String) :
    splitOnce '=' (encodeVariant variant) = some (variant.1.text, variant.2) :=
  splitOnce_append variant.1.no_separator variant.2

/-! ## The rebuild -/

/-- Where one `rebuild_index` call stands. -/
inductive Rebuild where
  | deleting
  | scanning (keys : List SchemaId)
  | restoringBucket (id : SchemaId) (keys : List SchemaId)
  | readingVariants (id : SchemaId) (bucket : BucketKey) (keys : List SchemaId)
  | restoringVariants (id : SchemaId) (variants : List (BucketKey × String)) (keys : List SchemaId)

/-- `DEL` of one bucket. -/
def dropBucket (store : RegistryStore) (bucket : BucketKey) : RegistryStore :=
  { store with index := Function.update store.index bucket ∅ }

def addMember (store : RegistryStore) (bucket : BucketKey) (member : String) : RegistryStore :=
  { store with index := store.index.sadd bucket member }

/-- The next commands of a rebuild that has finished deleting. -/
def rebuildStep (store : RegistryStore) : Rebuild → Option (RegistryStore × Option Rebuild)
  | .deleting => none
  | .scanning [] => some (store, none)
  | .scanning (id :: keys) => some (store.addListing id, some (.restoringBucket id keys))
  | .restoringBucket id keys =>
    match store.schemas id with
    | some hash => some (addMember store hash.bucket (bucketMember id),
        some (.readingVariants id hash.bucket keys))
    | none => some (store, some (.scanning keys))
  | .readingVariants id _ keys =>
    let variants := ((store.schemas id).map SchemaHash.variants).getD []
    some (store, some (.restoringVariants id variants keys))
  | .restoringVariants _ [] keys => some (store, some (.scanning keys))
  | .restoringVariants id (variant :: variants) keys =>
    some (addMember store variant.1 (variantMember variant.2 id),
      some (.restoringVariants id variants keys))

/-- Whether a rebuild is still going to restore an entry of a schema. -/
def Rebuild.owes (id : SchemaId) (entry : BucketKey × String) : Rebuild → Prop
  | .deleting => True
  | .scanning keys => id ∈ keys
  | .restoringBucket current keys => id = current ∨ id ∈ keys
  | .readingVariants current bucket keys =>
    (id = current ∧ entry ≠ (bucket, current.body)) ∨ id ∈ keys
  | .restoringVariants current variants keys => (id = current ∧ entry ∈ variants) ∨ id ∈ keys

/-- What a rebuild has read from a hash is what the hash says. -/
def Rebuild.agrees (store : RegistryStore) : Rebuild → Prop
  | .readingVariants id bucket _ => ∃ hash, store.schemas id = some hash ∧ hash.bucket = bucket
  | .restoringVariants id variants _ => ∀ variant ∈ variants, variant ∈ recorded store id
  | _ => True

variable {store : RegistryStore} {id other : SchemaId} {bucket : BucketKey}
  {entry : BucketKey × String}

theorem recorded_eq {hash : SchemaHash} (hhash : store.schemas id = some hash) :
    recorded store id = hash.entries id := by
  simp [recorded, hhash]

/-- A recorded member matches exactly the fingerprint it was recorded under. -/
theorem prefix_variantMember {text : String} (htext : '=' ∉ text.toList)
    (fingerprint : SchemaId) :
    (fingerprint.body ++ "=").toList <+: (variantMember text id).toList ↔
      text = fingerprint.body := by
  constructor
  · rintro ⟨rest, hrest⟩
    have hsplit := splitOnce_append htext id.asStr
    have hmember : variantMember text id = fingerprint.body ++ "=" ++ String.ofList rest := by
      apply String.toList_inj.mp
      simp [← hrest]
    have hother := splitOnce_append fingerprint.eq_notMem_body (String.ofList rest)
    rw [← hmember] at hother
    exact congrArg Prod.fst (Option.some.inj (hsplit.symm.trans hother))
  · rintro rfl
    exact ⟨id.asStr.toList, by simp [variantMember]⟩

theorem memberSchema_variantMember {text : String} (htext : '=' ∉ text.toList) :
    memberSchema (variantMember text id) = some id := by
  unfold memberSchema variantMember
  rw [splitOnce_append htext]
  simp

end Deblob.Redis
