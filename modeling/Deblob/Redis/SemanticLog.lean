import Deblob.Core.Identity
import Deblob.Lib.KeyedSets
import Deblob.Lib.TransitionSystem
import Mathlib.Data.Finset.Filter

/-!
# Semantic revisions and their derived indexes

`appendScript` is the script behind `append_revision`: it appends one immutable revision, moves the
active pointer and swaps the index entries of the schema, or changes nothing. How semantic metadata
is written as JSON and which signature features it has is a `MetadataCodec`. Revision ids are
minted by the caller; a minted id is one the schema has no revision under.
-/

namespace Deblob.Redis

open Core Lib

structure RevisionId where
  asStr : String
deriving DecidableEq

/-- The JSON form of semantic metadata and its `feature_keys_hex`. -/
structure MetadataCodec (Metadata : Type) where
  toJson : Metadata → String
  fromJson : String → Option Metadata
  fromJson_toJson : ∀ metadata, fromJson (toJson metadata) = some metadata
  featureKeys : Metadata → List String

/-- The fields of a revision hash; its `status` is always `active`. -/
structure RevisionHash where
  revisionId : RevisionId
  schId : SchemaId
  semId : SemanticId
  canonicalBytesHex : String
  metadataJson : String
  previousRevisionId : Option RevisionId
  actor : String
  reasonCode : String
  reason : String
  recordedAt : ℤ
  effectiveFrom : ℤ

/-- The fields of an active pointer. -/
structure ActivePointer where
  revisionId : RevisionId
  semId : SemanticId
  etag : ℕ
  featureKeys : List String

structure SemAuditEntry where
  actor : String
  reason : String
  schema : SchemaId
  sem : SemanticId
  ts : ℤ

structure SemStore where
  revisions : SchemaId → RevisionId → Option RevisionHash
  active : SchemaId → Option ActivePointer
  index : KeyedSets SemanticId SchemaId
  sig : KeyedSets String SchemaId
  activeSchemas : Finset SchemaId
  audit : List SemAuditEntry

def SemStore.empty : SemStore :=
  ⟨fun _ _ ↦ none, fun _ ↦ none, fun _ ↦ ∅, fun _ ↦ ∅, ∅, []⟩

/-- The arguments of one `append_revision` call, with the revision id it mints. -/
structure AppendCall (Metadata : Type) where
  schId : SchemaId
  semId : SemanticId
  canonicalBytesHex : String
  metadata : Metadata
  actor : String
  reasonCode : String
  reason : String
  recordedAt : ℤ
  effectiveFrom : ℤ
  revisionId : RevisionId
  expectedEtag : Option ℕ

inductive AppendOutcome where
  | appended
  | alreadyActive
deriving DecidableEq

structure AppendReply where
  revisionId : RevisionId
  semId : SemanticId
  etag : ℕ
  outcome : AppendOutcome

inductive AppendError where
  | missingReason
  | etagConflict (current : ℕ)

/-- The etag of a schema, zero if it was never annotated. -/
def currentEtag (store : SemStore) (schId : SchemaId) : ℕ :=
  ((store.active schId).map ActivePointer.etag).getD 0

variable {Metadata : Type} (codec : MetadataCodec Metadata)

/-- No expected etag means that no active revision is expected. -/
def AppendCall.expected (call : AppendCall Metadata) : ℕ := call.expectedEtag.getD 0

/-- The active pointer if its revision already holds the bytes of the call. -/
def replayed (store : SemStore) (call : AppendCall Metadata) : Option ActivePointer :=
  (store.active call.schId).filter fun pointer ↦
    (store.revisions call.schId pointer.revisionId).any
      (·.canonicalBytesHex == call.canonicalBytesHex)

def newRevision (store : SemStore) (call : AppendCall Metadata) : RevisionHash where
  revisionId := call.revisionId
  schId := call.schId
  semId := call.semId
  canonicalBytesHex := call.canonicalBytesHex
  metadataJson := codec.toJson call.metadata
  previousRevisionId := (store.active call.schId).map ActivePointer.revisionId
  actor := call.actor
  reasonCode := call.reasonCode
  reason := call.reason
  recordedAt := call.recordedAt
  effectiveFrom := call.effectiveFrom

def newPointer (store : SemStore) (call : AppendCall Metadata) : ActivePointer :=
  ⟨call.revisionId, call.semId, currentEtag store call.schId + 1, codec.featureKeys call.metadata⟩

/-- Unlink the schema from the old semantic id, if it changes, and link it to the new one. -/
def relink (index : KeyedSets SemanticId SchemaId) (old : Option SemanticId) (new : SemanticId)
    (schId : SchemaId) : KeyedSets SemanticId SchemaId :=
  match old with
  | some semId => if semId ≠ new then (index.srem semId schId).sadd new schId
    else index.sadd new schId
  | none => index.sadd new schId

/-- Remove the postings of the old feature list, then add those of the new one. -/
def swapPostings (sig : KeyedSets String SchemaId) (old new : List String) (schId : SchemaId) :
    KeyedSets String SchemaId :=
  (sig.sremEach (old.map (·, schId))).saddEach (new.map (·, schId))

/-- The writes of a real append. -/
def appendWrites (store : SemStore) (call : AppendCall Metadata) : SemStore where
  revisions := Function.update store.revisions call.schId
    (Function.update (store.revisions call.schId) call.revisionId
      (some (newRevision codec store call)))
  active := Function.update store.active call.schId (some (newPointer codec store call))
  index := relink store.index ((store.active call.schId).map ActivePointer.semId) call.semId
    call.schId
  sig := swapPostings store.sig
    (((store.active call.schId).map ActivePointer.featureKeys).getD [])
    (codec.featureKeys call.metadata) call.schId
  activeSchemas := insert call.schId store.activeSchemas
  audit := store.audit ++ [⟨call.actor, call.reason, call.schId, call.semId, call.recordedAt⟩]

/-- A replay is answered before anything else is checked; both checks come before any write. -/
def appendScript (store : SemStore) (call : AppendCall Metadata) :
    Except AppendError AppendReply × SemStore :=
  match replayed store call with
  | some pointer => (.ok ⟨pointer.revisionId, pointer.semId, pointer.etag, .alreadyActive⟩, store)
  | none =>
    if call.reason = "" then (.error .missingReason, store)
    else if call.expected ≠ currentEtag store call.schId then
      (.error (.etagConflict (currentEtag store call.schId)), store)
    else (.ok ⟨call.revisionId, call.semId, currentEtag store call.schId + 1, .appended⟩,
      appendWrites codec store call)

/-- Any number of clients append in any order; one label is one script run. -/
def semMachine : Machine SemStore (AppendCall Metadata) where
  init := .empty
  step store call := some (appendScript codec store call).2

/-- The minted revision id is new to the schema. -/
def mintsFresh (store : SemStore) (call : AppendCall Metadata) : Prop :=
  (store.revisions call.schId call.revisionId).isNone

instance (store : SemStore) (call : AppendCall Metadata) : Decidable (mintsFresh store call) :=
  inferInstanceAs (Decidable (_ = true))

/-! ## The rebuild -/

inductive RebuildError where
  | corruptMetadata

/-- Reindex one `sem-active` key the scan returned, counting it if it holds a pointer. -/
def rebuildOne (count : ℕ × SemStore) (schId : SchemaId) : Except RebuildError (ℕ × SemStore) :=
  let (count, store) := count
  match store.active schId with
  | none => .ok (count, store)
  | some pointer =>
    let store := { store with
      index := store.index.sadd pointer.semId schId
      activeSchemas := insert schId store.activeSchemas }
    match store.revisions schId pointer.revisionId with
    | none => .ok (count + 1, store)
    | some revision =>
      match codec.fromJson revision.metadataJson with
      | none => .error .corruptMetadata
      | some metadata =>
        let features := codec.featureKeys metadata
        .ok (count + 1, { store with
          sig := store.sig.saddEach (features.map (·, schId))
          active := Function.update store.active schId
            (some { pointer with featureKeys := features }) })

/-- Drop the three indexes and reindex every key of the scan, which may return a key twice. -/
def rebuildSemanticIndex (keys : List SchemaId) (store : SemStore) :
    Except RebuildError (ℕ × SemStore) :=
  keys.foldlM (rebuildOne codec)
    (0, { store with index := fun _ ↦ ∅, sig := fun _ ↦ ∅, activeSchemas := ∅ })

end Deblob.Redis
