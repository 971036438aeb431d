import Deblob.Redis.SemanticConsistency
import Mathlib.Data.Finset.Card
import Mathlib.Data.Finset.Union

/-!
# Reading the semantic log

The queries that answer from the log without writing: the active revision of a schema, the schemas
posted under any of some features, and the corpus statistics of features. In a consistent log the
active revision is always there and the postings are those of the active revisions.
-/

namespace Deblob.Redis

open Core Lib

/-- A revision hash with its metadata parsed. -/
structure Revision (Metadata : Type) where
  hash : RevisionHash
  metadata : Metadata

/-- The two ways in which stored data is found corrupt. -/
inductive SemError where
  | missingRevision (revisionId : RevisionId)
  | corruptMetadata (revisionId : RevisionId)

inductive SignatureCandidates where
  | bounded (ids : List SchemaId)
  | tooBroad

def maxSignatureCandidates : ℕ := 20000

/-- The reads of the `SemanticStore` trait. -/
structure SemanticReads (Metadata : Type) where
  activeRevision : SchemaId → Except SemError (Option (Revision Metadata × ℕ))
  signatureCandidates : List String → Except SemError SignatureCandidates
  idfStats : List String → Except SemError (ℕ × List ℕ)

/-- The population and the document frequency of every feature. -/
structure IdfTable where
  n : ℕ
  df : String → ℕ

/-- The order in which `SUNION` lists the members of a set. -/
structure UnionOrder where
  list : Finset SchemaId → List SchemaId
  nodup : ∀ set, (list set).Nodup
  mem : ∀ set id, id ∈ list set ↔ id ∈ set

variable {Metadata : Type} (codec : MetadataCodec Metadata)

def activeRevision (store : SemStore) (schId : SchemaId) :
    Except SemError (Option (Revision Metadata × ℕ)) :=
  match store.active schId with
  | none => .ok none
  | some pointer =>
    match store.revisions schId pointer.revisionId with
    | none => .error (.missingRevision pointer.revisionId)
    | some hash =>
      match codec.fromJson hash.metadataJson with
      | none => .error (.corruptMetadata pointer.revisionId)
      | some metadata => .ok (some (⟨hash, metadata⟩, pointer.etag))

/-- The schemas posted under one of the features. -/
def postedUnder (store : SemStore) (featureKeysHex : List String) : Finset SchemaId :=
  featureKeysHex.toFinset.biUnion store.sig

/-- A union that is too large is reported and never cut. -/
def signatureCandidates (order : UnionOrder) (store : SemStore) (featureKeysHex : List String) :
    SignatureCandidates :=
  if featureKeysHex.isEmpty then .bounded []
  else
    let members := order.list (postedUnder store featureKeysHex)
    if members.length > maxSignatureCandidates then .tooBroad else .bounded members

/-- What `SCARD` counts in the indexes. -/
def SemStore.idfTable (store : SemStore) : IdfTable where
  n := store.activeSchemas.card
  df hex := (store.sig hex).card

@[simp]
theorem idfTable_n (store : SemStore) : store.idfTable.n = store.activeSchemas.card := rfl

@[simp]
theorem idfTable_df (store : SemStore) (hex : String) :
    store.idfTable.df hex = (store.sig hex).card := rfl

def IdfTable.stats (table : IdfTable) (featureKeysHex : List String) : ℕ × List ℕ :=
  (table.n, featureKeysHex.map table.df)

/-- The reads of a log, with the statistics taken from `table`. -/
def SemStore.reads (store : SemStore) (order : UnionOrder) (table : IdfTable) :
    SemanticReads Metadata where
  activeRevision := Redis.activeRevision codec store
  signatureCandidates hexes := .ok (Redis.signatureCandidates order store hexes)
  idfStats hexes := .ok (table.stats hexes)

/-- The metadata the active revision of a schema asserts. -/
def activeMetadata (store : SemStore) (schId : SchemaId) : Option Metadata :=
  (store.active schId).bind fun pointer ↦
    (store.revisions schId pointer.revisionId).bind fun hash ↦ codec.fromJson hash.metadataJson

variable {codec} {store : SemStore} {schId : SchemaId} {metadata : Metadata}

theorem activeRevision_of_active (hactive : activeMetadata codec store schId = some metadata) :
    ∃ hash etag, activeRevision codec store schId = .ok (some (⟨hash, metadata⟩, etag)) := by
  rcases Option.bind_eq_some_iff.mp hactive with ⟨pointer, hpointer, hrest⟩
  rcases Option.bind_eq_some_iff.mp hrest with ⟨hash, hhash, hjson⟩
  exact ⟨hash, pointer.etag, by simp only [activeRevision, hpointer, hhash, hjson]⟩

/-- An append changes what one schema asserts. -/
theorem activeMetadata_appendWrites (call : AppendCall Metadata) :
    activeMetadata codec (appendWrites codec store call) schId =
      if schId = call.schId then some call.metadata else activeMetadata codec store schId := by
  unfold activeMetadata
  split_ifs with hschema
  · subst hschema
    rw [appendWrites_active_self, appendWrites_revisions_self]
    simp [newPointer, newRevision, codec.fromJson_toJson]
  · rw [appendWrites_active_of_ne hschema, appendWrites_revisions_of_ne hschema]

namespace SemConsistent

variable (hinv : SemConsistent codec store)

include hinv

theorem activeMetadata_of_pointer {pointer : ActivePointer}
    (hpointer : store.active schId = some pointer) :
    ∃ metadata, activeMetadata codec store schId = some metadata ∧
      pointer.featureKeys = codec.featureKeys metadata := by
  rcases hinv.active schId pointer hpointer with
    ⟨revision, metadata, hrevision, -, hjson, hfeatures⟩
  refine ⟨metadata, ?_, hfeatures⟩
  simp only [activeMetadata, hpointer, hrevision, hjson, Option.bind_some]

theorem activeRevision_of_inactive (hinactive : activeMetadata codec store schId = none) :
    activeRevision codec store schId = .ok none := by
  cases hpointer : store.active schId with
  | none => simp only [activeRevision, hpointer]
  | some pointer =>
      rcases hinv.activeMetadata_of_pointer hpointer with ⟨metadata, hactive, -⟩
      rw [hinactive] at hactive
      cases hactive

/-- A schema is posted under the features of its active metadata. -/
theorem mem_sig {hex : String} :
    schId ∈ store.sig hex ↔ ∃ metadata, activeMetadata codec store schId = some metadata ∧
      hex ∈ codec.featureKeys metadata := by
  rw [hinv.sig]
  constructor
  · rintro ⟨pointer, hpointer, hmem⟩
    rcases hinv.activeMetadata_of_pointer hpointer with ⟨metadata, hactive, hfeatures⟩
    exact ⟨metadata, hactive, hfeatures ▸ hmem⟩
  · rintro ⟨metadata, hactive, hmem⟩
    rcases Option.bind_eq_some_iff.mp hactive with ⟨pointer, hpointer, -⟩
    rcases hinv.activeMetadata_of_pointer hpointer with ⟨found, hfound, hfeatures⟩
    rw [hactive, Option.some.injEq] at hfound
    subst hfound
    exact ⟨pointer, hpointer, hfeatures ▸ hmem⟩

theorem mem_activeSchemas :
    schId ∈ store.activeSchemas ↔ (activeMetadata codec store schId).isSome := by
  rw [hinv.activeSchemas]
  constructor
  · intro hactive
    rcases Option.isSome_iff_exists.mp hactive with ⟨pointer, hpointer⟩
    rcases hinv.activeMetadata_of_pointer hpointer with ⟨metadata, hmetadata, -⟩
    rw [hmetadata, Option.isSome_some]
  · intro hactive
    rcases Option.isSome_iff_exists.mp hactive with ⟨metadata, hmetadata⟩
    rcases Option.bind_eq_some_iff.mp hmetadata with ⟨pointer, hpointer, -⟩
    rw [hpointer, Option.isSome_some]

/-- The first append to a schema goes through. -/
theorem appendScript_first {call : AppendCall Metadata}
    (hinactive : activeMetadata codec store call.schId = none) (hreason : call.reason ≠ "")
    (hexpected : call.expectedEtag = none) :
    mintsFresh store call ∧ (appendScript codec store call).2 = appendWrites codec store call := by
  have hnone : store.active call.schId = none := by
    cases hpointer : store.active call.schId with
    | none => rfl
    | some pointer =>
        rcases hinv.activeMetadata_of_pointer hpointer with ⟨metadata, hactive, -⟩
        rw [hinactive] at hactive
        cases hactive
  rcases hinv.chain call.schId with ⟨chain, -, hlength, -, hstored⟩
  have hetag : currentEtag store call.schId = 0 := by simp [currentEtag, hnone]
  obtain rfl : chain = [] := List.length_eq_zero_iff.mp (hlength.trans hetag)
  constructor
  · have hmissing := hstored call.revisionId
    unfold mintsFresh
    cases hrevision : store.revisions call.schId call.revisionId with
    | none => rfl
    | some revision => simp [hrevision] at hmissing
  · simp [appendScript, replayed, hnone, hreason, AppendCall.expected, hexpected, hetag]

end SemConsistent

theorem mem_postedUnder {hexes : List String} :
    schId ∈ postedUnder store hexes ↔ ∃ hex ∈ hexes, schId ∈ store.sig hex := by
  simp [postedUnder]

theorem UnionOrder.length_list (order : UnionOrder) (set : Finset SchemaId) :
    (order.list set).length = set.card := by
  rw [← List.toFinset_card_of_nodup (order.nodup set)]
  congr 1
  ext schId
  rw [List.mem_toFinset, order.mem]

theorem signatureCandidates_eq (order : UnionOrder) (store : SemStore) (hexes : List String) :
    signatureCandidates order store hexes =
      if maxSignatureCandidates < (postedUnder store hexes).card then .tooBroad
      else .bounded (order.list (postedUnder store hexes)) := by
  unfold signatureCandidates
  dsimp only
  rw [order.length_list]
  by_cases hempty : hexes.isEmpty
  · have hnone : order.list (postedUnder store hexes) = [] := by
      apply List.eq_nil_iff_forall_not_mem.mpr
      intro schId hmem
      rw [order.mem, List.isEmpty_iff.mp hempty] at hmem
      simp [postedUnder] at hmem
    rw [if_pos hempty, ← order.length_list, hnone, if_neg (by decide)]
  · rw [if_neg hempty]

end Deblob.Redis
