import Deblob.Redis.Index

/-!
# A rebuild against the incremental index

Publications add bucket members as they happen, while `rebuild_index` restores them from what the
schema hashes say in the end. A hash keeps the bucket of its first publication and the variants of
its last one, so the two agree exactly if no publication had another entry.
-/

namespace Deblob.Redis

open Core Lib

/-! ## A rebuild on its own -/

def clearIndex (store : RegistryStore) : RegistryStore :=
  { store with index := fun _ ↦ ∅, listing := ∅ }

def restoreVariants (store : RegistryStore) (id : SchemaId)
    (variants : List (BucketKey × String)) : RegistryStore :=
  variants.foldl (fun store variant ↦ addMember store variant.1 (variantMember variant.2 id)) store

/-- The commands for one schema key. -/
def restoreSchema (store : RegistryStore) (id : SchemaId) : RegistryStore :=
  match store.schemas id with
  | some hash =>
    restoreVariants (addMember (store.addListing id) hash.bucket (bucketMember id)) id hash.variants
  | none => store.addListing id

/-- `rebuild_index` with nobody else at work; `keys` are the schema keys as the scan gives them. -/
def rebuildIndex (store : RegistryStore) (keys : List SchemaId) : RegistryStore :=
  keys.foldl restoreSchema (clearIndex store)

/-- The rebuild's commands, one after the other, from a stage of the rebuild to its end. -/
inductive RunsTo : RegistryStore → Rebuild → RegistryStore → Prop
  | last {store final : RegistryStore} {stage : Rebuild}
      (hstep : rebuildStep store stage = some (final, none)) : RunsTo store stage final
  | next {store middle final : RegistryStore} {stage following : Rebuild}
      (hstep : rebuildStep store stage = some (middle, some following))
      (hrest : RunsTo middle following final) : RunsTo store stage final

@[simp]
theorem addMember_schemas (store : RegistryStore) (bucket : BucketKey) (member : String) :
    (addMember store bucket member).schemas = store.schemas := rfl

theorem runsTo_restoreVariants {store final : RegistryStore} {id : SchemaId}
    {variants : List (BucketKey × String)} {keys : List SchemaId}
    (hrest : RunsTo (restoreVariants store id variants) (.scanning keys) final) :
    RunsTo store (.restoringVariants id variants keys) final := by
  induction variants generalizing store with
  | nil => exact .next rfl hrest
  | cons variant variants ih => exact .next rfl (ih hrest)

/-- The step-by-step rebuild, run on its own, is the rebuild. -/
theorem runsTo_scanning (store : RegistryStore) (keys : List SchemaId) :
    RunsTo store (.scanning keys) (keys.foldl restoreSchema store) := by
  induction keys generalizing store with
  | nil => exact .last rfl
  | cons id keys ih =>
      apply RunsTo.next rfl
      have hrest := ih (restoreSchema store id)
      rw [List.foldl_cons]
      cases hhash : store.schemas id with
      | none =>
          rw [restoreSchema, hhash] at hrest ⊢
          have hstep : rebuildStep (store.addListing id) (.restoringBucket id keys) =
              some (store.addListing id, some (.scanning keys)) := by
            simp [rebuildStep, RegistryStore.addListing, hhash]
          exact .next hstep hrest
      | some hash =>
          rw [restoreSchema, hhash] at hrest ⊢
          have hstep : rebuildStep (store.addListing id) (.restoringBucket id keys) =
              some (addMember (store.addListing id) hash.bucket (bucketMember id),
                some (.readingVariants id hash.bucket keys)) := by
            simp [rebuildStep, RegistryStore.addListing, hhash]
          apply RunsTo.next hstep
          have hvariants : rebuildStep
              (addMember (store.addListing id) hash.bucket (bucketMember id))
              (.readingVariants id hash.bucket keys) =
              some (addMember (store.addListing id) hash.bucket (bucketMember id),
                some (.restoringVariants id hash.variants keys)) := by
            simp [rebuildStep, RegistryStore.addListing, hhash]
          exact .next hvariants (runsTo_restoreVariants hrest)

theorem restoreVariants_eq (store : RegistryStore) (id : SchemaId)
    (variants : List (BucketKey × String)) :
    restoreVariants store id variants =
      { store with
        index := store.index.saddEach (variants.map fun variant ↦
          (variant.1, variantMember variant.2 id)) } := by
  induction variants generalizing store with
  | nil => rfl
  | cons variant variants ih => exact ih _

/-- One schema key restores what its hash records. -/
theorem restoreSchema_spec (store : RegistryStore) (id : SchemaId) :
    (restoreSchema store id).schemas = store.schemas ∧
      (restoreSchema store id).listing = insert id store.listing ∧
      ∀ bucket member, member ∈ (restoreSchema store id).index bucket ↔
        member ∈ store.index bucket ∨ ∃ entry ∈ recorded store id,
          entry.1 = bucket ∧ member = variantMember entry.2 id := by
  cases hhash : store.schemas id with
  | none => simp [restoreSchema, hhash, recorded, RegistryStore.addListing]
  | some hash =>
      rw [restoreSchema, hhash]
      simp only [restoreVariants_eq]
      refine ⟨rfl, rfl, fun bucket member ↦ ?_⟩
      rw [recorded_eq hhash, SchemaHash.entries]
      simp only [KeyedSets.mem_saddEach, addMember, KeyedSets.mem_sadd, RegistryStore.addListing,
        List.mem_map, Prod.mk.injEq, List.mem_cons, exists_eq_or_imp, bucketMember]
      constructor
      · rintro (⟨variant, hvariant, hbucket, rfl⟩ | ⟨rfl, rfl⟩ | hold)
        · exact .inr (.inr ⟨variant, hvariant, hbucket, rfl⟩)
        · exact .inr (.inl ⟨rfl, rfl⟩)
        · exact .inl hold
      · rintro (hold | ⟨rfl, rfl⟩ | ⟨variant, hvariant, hbucket, rfl⟩)
        · exact .inr (.inr hold)
        · exact .inr (.inl ⟨rfl, rfl⟩)
        · exact .inl ⟨variant, hvariant, hbucket, rfl⟩

/-- A rebuild restores exactly what the hashes of the scanned keys record. -/
theorem rebuildIndex_spec (store : RegistryStore) (keys : List SchemaId) :
    (∀ id, id ∈ (rebuildIndex store keys).listing ↔ id ∈ keys) ∧
      ∀ bucket member, member ∈ (rebuildIndex store keys).index bucket ↔
        ∃ id ∈ keys, ∃ entry ∈ recorded store id,
          entry.1 = bucket ∧ member = variantMember entry.2 id := by
  have hfold (start : RegistryStore) (hstart : start.schemas = store.schemas) :
      (∀ id, id ∈ (keys.foldl restoreSchema start).listing ↔ id ∈ keys ∨ id ∈ start.listing) ∧
        ∀ bucket member, member ∈ (keys.foldl restoreSchema start).index bucket ↔
          (∃ id ∈ keys, ∃ entry ∈ recorded store id,
            entry.1 = bucket ∧ member = variantMember entry.2 id) ∨
          member ∈ start.index bucket := by
    induction keys generalizing start with
    | nil => simp
    | cons current keys ih =>
        rcases restoreSchema_spec start current with ⟨hschemas, hlisting, hindex⟩
        rcases ih (restoreSchema start current) (hschemas.trans hstart) with ⟨hlist, hmember⟩
        have hrecorded : recorded start current = recorded store current := by
          unfold recorded
          rw [hstart]
        constructor
        · intro id
          rw [List.foldl_cons, hlist, hlisting, Finset.mem_insert, List.mem_cons]
          tauto
        · intro bucket member
          rw [List.foldl_cons, hmember, hindex, hrecorded]
          simp only [List.mem_cons, exists_eq_or_imp]
          rw [or_comm, or_assoc, or_comm]
  rcases hfold (clearIndex store) rfl with ⟨hlisting, hindex⟩
  constructor
  · intro id
    rw [rebuildIndex, hlisting]
    simp [clearIndex]
  · intro bucket member
    rw [rebuildIndex, hindex]
    simp [clearIndex]

/-! ## Sequences of publications -/

def publishAll (store : RegistryStore) (calls : List PublishCall) : RegistryStore :=
  calls.foldl (fun store call ↦ (publishScript store call).2) store

/-- The calls of a sequence that pass both checks of the script. -/
def acceptedCalls : RegistryStore → List PublishCall → List PublishCall
  | _, [] => []
  | store, call :: calls =>
    let rest := acceptedCalls (publishScript store call).2 calls
    if violatesImmutability store call || aliasConflicts store call then rest else call :: rest

/-- What one publication puts into the index. -/
def PublishCall.entries (call : PublishCall) : List (BucketKey × String) :=
  (call.bucketKey, call.schemaId.body) :: call.variants

/-- The bucket of a schema's first publication and the variants of its last one. -/
def keptEntries (accepted : List PublishCall) (id : SchemaId) : List (BucketKey × String) :=
  match accepted.find? (fun call ↦ call.schemaId = id),
    accepted.reverse.find? (fun call ↦ call.schemaId = id) with
  | some first, some last => (first.bucketKey, id.body) :: last.variants
  | _, _ => []

/-- No publication had an entry that its schema's first bucket and last variants lack. -/
def NothingDropped (accepted : List PublishCall) : Prop :=
  ∀ call ∈ accepted, ∀ entry ∈ call.entries, entry ∈ keptEntries accepted call.schemaId

instance (accepted : List PublishCall) : Decidable (NothingDropped accepted) :=
  inferInstanceAs (Decidable (∀ call ∈ accepted, ∀ entry ∈ call.entries, _))

/-- The index and the hashes as the accepted publications left them. -/
structure IndexedBy (accepted : List PublishCall) (store : RegistryStore) : Prop where
  index : ∀ bucket member, member ∈ store.index bucket ↔ ∃ call ∈ accepted,
    ∃ entry ∈ call.entries, entry.1 = bucket ∧ member = variantMember entry.2 call.schemaId
  listing : ∀ id, id ∈ store.listing ↔ ∃ call ∈ accepted, call.schemaId = id
  schemas : ∀ id, (store.schemas id).isSome ↔ ∃ call ∈ accepted, call.schemaId = id
  recorded : ∀ id, recorded store id = keptEntries accepted id

theorem keptEntries_concat_of_ne {accepted : List PublishCall} {call : PublishCall} {id : SchemaId}
    (hne : call.schemaId ≠ id) : keptEntries (accepted ++ [call]) id = keptEntries accepted id := by
  simp [keptEntries, List.find?_append, hne]

theorem keptEntries_concat_self (accepted : List PublishCall) (call : PublishCall) :
    keptEntries (accepted ++ [call]) call.schemaId =
      (((accepted.find? fun other ↦ other.schemaId = call.schemaId).getD call).bucketKey,
        call.schemaId.body) :: call.variants := by
  cases hfirst : accepted.find? (fun other ↦ other.schemaId = call.schemaId) <;>
    simp [keptEntries, List.find?_append, hfirst]

theorem indexedBy_empty : IndexedBy [] .empty where
  index bucket member := by simp [RegistryStore.empty]
  listing id := by simp [RegistryStore.empty]
  schemas id := by simp [RegistryStore.empty]
  recorded id := rfl

/-- An accepted publication adds its entries to the index and replaces the recorded variants. -/
theorem IndexedBy.publish {accepted : List PublishCall} {store next : RegistryStore}
    {call : PublishCall} {version : ℕ} (hindexed : IndexedBy accepted store)
    (hpublished : Published store call version next) : IndexedBy (accepted ++ [call]) next := by
  have hself : ∃ hash, next.schemas call.schemaId = some hash ∧
      hash.entries call.schemaId = keptEntries (accepted ++ [call]) call.schemaId := by
    rw [keptEntries_concat_self]
    cases hhash : store.schemas call.schemaId with
    | none =>
        have hfirst : accepted.find? (fun other ↦ other.schemaId = call.schemaId) = none := by
          apply List.find?_eq_none.mpr
          intro other hother
          have hmissing := hindexed.schemas call.schemaId
          rw [hhash] at hmissing
          simpa using fun heq ↦ by simpa using hmissing.mpr ⟨other, hother, heq⟩
        exact ⟨_, hpublished.schemas_of_fresh hhash, by rw [hfirst]; rfl⟩
    | some hash =>
        have hrecorded := hindexed.recorded call.schemaId
        rw [recorded_eq hhash, SchemaHash.entries, keptEntries] at hrecorded
        refine ⟨{ hash with variants := call.variants }, ?_, ?_⟩
        · rw [hpublished.schemas]
          simp [RegistryStore.writeSchema, hhash]
        · cases hfirst : accepted.find? (fun other ↦ other.schemaId = call.schemaId) with
          | none => simp [hfirst] at hrecorded
          | some first =>
              cases hlast : accepted.reverse.find? (fun other ↦ other.schemaId = call.schemaId) with
              | none => simp [hfirst, hlast] at hrecorded
              | some last =>
                  rw [hfirst, hlast, List.cons.injEq, Prod.mk.injEq] at hrecorded
                  rw [SchemaHash.entries, Option.getD_some, ← hrecorded.1.1]
  constructor
  case index =>
    intro bucket member
    rw [hpublished.index, hindexed.index]
    simp only [List.mem_append, or_and_right, exists_or, exists_eq_left,
      PublishCall.entries, List.mem_cons, bucketMember]
    grind
  case listing =>
    intro id
    rw [hpublished.listing, Finset.mem_insert, hindexed.listing]
    simp only [List.mem_append, List.mem_singleton, or_and_right, exists_or, exists_eq_left]
    rw [or_comm, eq_comm]
  case schemas =>
    intro id
    by_cases hid : id = call.schemaId
    · rcases hself with ⟨hash, hhash, -⟩
      rw [hid, hhash]
      simp
    · rw [hpublished.schemas_of_ne hid, hindexed.schemas]
      simp only [List.mem_append, List.mem_singleton, or_and_right, exists_or, exists_eq_left,
        Ne.symm hid, or_false]
  case recorded =>
    intro id
    by_cases hid : id = call.schemaId
    · rcases hself with ⟨hash, hhash, hentries⟩
      rw [hid, recorded_eq hhash, hentries]
    · rw [keptEntries_concat_of_ne (Ne.symm hid), ← hindexed.recorded id]
      unfold Redis.recorded
      rw [hpublished.schemas_of_ne hid]

theorem IndexedBy.publishAll {accepted : List PublishCall} {store : RegistryStore}
    (calls : List PublishCall) (hindexed : IndexedBy accepted store) :
    IndexedBy (accepted ++ acceptedCalls store calls) (Redis.publishAll store calls) := by
  induction calls generalizing accepted store with
  | nil => rwa [acceptedCalls, List.append_nil]
  | cons call calls ih =>
      rw [Redis.publishAll, List.foldl_cons, ← Redis.publishAll, acceptedCalls]
      rcases publishScript_cases store call with ⟨err, hscript⟩ | ⟨version, next, hscript, hnext⟩
      · have hrefused : violatesImmutability store call || aliasConflicts store call := by
          by_contra hpassed
          rw [Bool.or_eq_true, not_or] at hpassed
          simp [publishScript, hpassed] at hscript
        rw [if_pos hrefused, hscript]
        exact ih hindexed
      · have hpassed : ¬ (violatesImmutability store call || aliasConflicts store call) := by
          intro hrefused
          rw [Bool.or_eq_true] at hrefused
          unfold publishScript at hscript
          split_ifs at hscript <;> simp_all
        rw [if_neg hpassed, hscript, List.append_cons]
        exact ih (hindexed.publish hnext)

/-! ## Rebuilt and incremental index -/

/-- The identifier is the end of a member, whatever the fingerprint's text. -/
theorem variantMember_inj {left right : String} {id other : SchemaId}
    (heq : variantMember left id = variantMember right other) : left = right ∧ id = other := by
  have hlist : (left ++ "=").toList ++ id.asStr.toList =
      (right ++ "=").toList ++ other.asStr.toList := by
    simpa [variantMember] using congrArg String.toList heq
  have hlength : id.asStr.toList.length = other.asStr.toList.length := by
    rw [DigestId.length_asStr, DigestId.length_asStr]
  rcases List.append_inj' hlist hlength with ⟨htext, hid⟩
  constructor
  · apply String.toList_inj.mp
    simpa using htext
  · exact DigestId.asStr_injective (String.toList_inj.mp hid)

/-- A rebuild gives the incremental index back exactly if no publication was dropped. -/
theorem rebuild_eq_incremental_iff (calls : List PublishCall) (keys : List SchemaId)
    (hkeys : ∀ id, id ∈ keys ↔ ((publishAll .empty calls).schemas id).isSome) :
    ((rebuildIndex (publishAll .empty calls) keys).index = (publishAll .empty calls).index ∧
        (rebuildIndex (publishAll .empty calls) keys).listing =
          (publishAll .empty calls).listing) ↔
      NothingDropped (acceptedCalls .empty calls) := by
  have hindexed : IndexedBy (acceptedCalls .empty calls) (publishAll .empty calls) := by
    have hall := indexedBy_empty.publishAll calls
    rwa [List.nil_append] at hall
  generalize publishAll .empty calls = store at hkeys hindexed ⊢
  generalize acceptedCalls .empty calls = accepted at hindexed ⊢
  rcases rebuildIndex_spec store keys with ⟨hlisting, hindex⟩
  constructor
  · rintro ⟨hsame, -⟩ call hcall entry hentry
    have hmember : variantMember entry.2 call.schemaId ∈ store.index entry.1 :=
      (hindexed.index _ _).mpr ⟨call, hcall, entry, hentry, rfl, rfl⟩
    rw [← hsame, hindex] at hmember
    rcases hmember with ⟨id, -, kept, hkept, hbucket, heq⟩
    rcases variantMember_inj heq with ⟨htext, rfl⟩
    rw [← hindexed.recorded, Prod.ext hbucket.symm htext]
    exact hkept
  · intro hdropped
    constructor
    · funext bucket
      ext member
      rw [hindex, hindexed.index]
      constructor
      · rintro ⟨id, -, entry, hentry, hbucket, rfl⟩
        rw [hindexed.recorded, keptEntries] at hentry
        cases hfirst : accepted.find? (fun call ↦ call.schemaId = id) with
        | none => simp [hfirst] at hentry
        | some first =>
            cases hlast : accepted.reverse.find? (fun call ↦ call.schemaId = id) with
            | none => simp [hfirst, hlast] at hentry
            | some last =>
                rw [hfirst, hlast, List.mem_cons] at hentry
                have hfirstId : first.schemaId = id := by simpa using List.find?_some hfirst
                have hlastId : last.schemaId = id := by simpa using List.find?_some hlast
                rcases hentry with rfl | hvariant
                · refine ⟨first, List.mem_of_find?_eq_some hfirst, _, List.mem_cons_self,
                    hbucket, ?_⟩
                  rw [hfirstId]
                · refine ⟨last, List.mem_reverse.mp (List.mem_of_find?_eq_some hlast), entry,
                    List.mem_cons_of_mem _ hvariant, hbucket, ?_⟩
                  rw [hlastId]
      · rintro ⟨call, hcall, entry, hentry, hbucket, hmember⟩
        have hsome := (hindexed.schemas call.schemaId).mpr ⟨call, hcall, rfl⟩
        refine ⟨call.schemaId, (hkeys _).mpr hsome, entry, ?_, hbucket, hmember⟩
        rw [hindexed.recorded]
        exact hdropped call hcall entry hentry
    · ext id
      rw [hlisting, hkeys, hindexed.schemas, hindexed.listing]

/-- The bucket and the schema of the runs on fixed inputs. -/
def rebuiltBucket : BucketKey := sampleBucketKey

def rebuiltSchema : SchemaId := .fromDigest (.replicate 32 0)

/-- The schema published from a candidate with one observed shape. -/
def publishedFrom (candidate : Digest) (fp : String) : PublishCall where
  schemaJson := "{}"
  canonical := "{}"
  canonicalizer := "deblob-monoid-v1"
  familyId := ⟨"fam_0"⟩
  schemaId := rebuiltSchema
  aliasFrom := .fromDigest candidate
  bucketKey := rebuiltBucket
  variants := [(rebuiltBucket, fp)]
  actor := "actor"
  reason := "reason"
  nowMs := "0"

/-- Two candidates with the same shape: the rebuild loses nothing. -/
theorem rebuild_eq_incremental_twice :
    (rebuildIndex (publishAll .empty [publishedFrom (.replicate 32 1) "a",
        publishedFrom (.replicate 32 2) "a"]) [rebuiltSchema]).index =
      (publishAll .empty [publishedFrom (.replicate 32 1) "a",
        publishedFrom (.replicate 32 2) "a"]).index := by
  refine ((rebuild_eq_incremental_iff _ _ fun id ↦ ?_).mpr ?_).1
  · have haccepted : (acceptedCalls .empty [publishedFrom (.replicate 32 1) "a",
        publishedFrom (.replicate 32 2) "a"]).map PublishCall.schemaId =
        [rebuiltSchema, rebuiltSchema] := by
      decide +kernel
    rw [(indexedBy_empty.publishAll _).schemas, List.nil_append, ← List.mem_map, haccepted]
    simp
  · decide +kernel

/-- The second candidate brings another shape, and the rebuild loses the first one. -/
theorem rebuild_loses_variant :
    variantMember "a" rebuiltSchema ∈
        (publishAll .empty [publishedFrom (.replicate 32 1) "a",
          publishedFrom (.replicate 32 2) "b"]).index rebuiltBucket ∧
      variantMember "a" rebuiltSchema ∉
        (rebuildIndex (publishAll .empty [publishedFrom (.replicate 32 1) "a",
          publishedFrom (.replicate 32 2) "b"]) [rebuiltSchema]).index rebuiltBucket := by
  decide +kernel

end Deblob.Redis
