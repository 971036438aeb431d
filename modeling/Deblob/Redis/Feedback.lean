import Deblob.Core.Identity
import Deblob.Lib.Scan
import Deblob.Semantic.Signature
import Mathlib.Data.Finset.Insert
import Mathlib.Logic.Function.Basic

/-!
# The feedback store

Labelled examples are appended to a stream. Every export reads the whole stream, leaves out the
actors in quarantine and keeps the first example of each cluster. The training blob leaves out the
safety suite and caps what a family and a label source contribute; a snapshot writes the safety
suite to a file of its own and splits the rest by the hash of the family.
-/

namespace Deblob.Redis

open Core Lib

def safetySuiteDedupPrefix : String := "safety:"

inductive LabelSource where
  | humanPromote
  | trustedProposalAccepted
  | trustedProposalRejected
  | semanticAnnotation
  | adjudication
deriving DecidableEq

/-- A labelled example; the body is all that is only rendered. An empty cluster is no cluster. -/
structure TrainingExample (Body : Type) where
  body : Body
  labelSource : LabelSource
  partitionKey : FamilyId
  actor : String
  dedupCluster : String
deriving DecidableEq

structure ExportCaps where
  maxExamplesPerPartitionAndLabelSource : ℕ

instance : Inhabited ExportCaps := ⟨⟨50⟩⟩

inductive SplitName where
  | train
  | holdout
  | neverTrainedSafetySuite
deriving DecidableEq

def SplitName.fileName : SplitName → String
  | train => "train.jsonl"
  | holdout => "holdout.jsonl"
  | neverTrainedSafetySuite => "never_trained_safety_suite.jsonl"

structure ManifestEntry where
  split : SplitName
  fileName : String
  sha256 : String
  recordCount : ℕ
deriving DecidableEq

structure ExportManifest where
  snapshotId : String
  createdAt : ℤ
  entries : List ManifestEntry
deriving DecidableEq

/-- The JSON forms, and the hash. -/
structure FeedbackCodec (Body : Type) where
  fromStr : String → Except String (TrainingExample Body)
  recordLine : TrainingExample Body → String
  manifestJson : ExportManifest → String
  sha256 : Bytes → Digest

/-- The entries of the stream, each with its fields. -/
abbrev FeedbackStream := List (String × List (String × String))

variable {Body : Type}

/-! ## The passes over the examples -/

def IsSafetySuite (record : TrainingExample Body) : Prop :=
  safetySuiteDedupPrefix.toList <+: record.dedupCluster.toList

instance : DecidablePred (@IsSafetySuite Body) := fun _ ↦ inferInstanceAs (Decidable (_ <+: _))

/-- The side of an example, and the sides of the clusters after it. The first example of a cluster
decides for the cluster. -/
def assignSide (familyHoldout : String → Bool) (clusterSide : String → Option Bool)
    (record : TrainingExample Body) : Bool × (String → Option Bool) :=
  let family := familyHoldout record.partitionKey.asStr
  if record.dedupCluster = "" then (family, clusterSide)
  else
    let side := (clusterSide record.dedupCluster).getD family
    (side, Function.update clusterSide record.dedupCluster (some side))

def assignSplitFrom (familyHoldout : String → Bool) (clusterSide : String → Option Bool) :
    List (TrainingExample Body) → List SplitName
  | [] => []
  | record :: rest =>
      let (holdout, next) := assignSide familyHoldout clusterSide record
      (if holdout then .holdout else .train) :: assignSplitFrom familyHoldout next rest

def assignSplit (familyHoldout : String → Bool) (examples : List (TrainingExample Body)) :
    List SplitName :=
  assignSplitFrom familyHoldout (fun _ ↦ none) examples

/-- About a fifth of the families. -/
def familyHashIsHoldout (sha256 : Bytes → Digest) (family : String) : Bool :=
  (sha256 (utf8 family))[0].toNat % 5 = 0

/-- An example is refused if its cluster was seen. -/
def clusterStep (seen : Finset String) (record : TrainingExample Body) : Option (Finset String) :=
  if record.dedupCluster = "" then some seen
  else if record.dedupCluster ∈ seen then none
  else some (insert record.dedupCluster seen)

def dedupByCluster (examples : List (TrainingExample Body)) : List (TrainingExample Body) :=
  scan clusterStep ∅ examples

def capKey (record : TrainingExample Body) : String × LabelSource :=
  (record.partitionKey.asStr, record.labelSource)

/-- An example is refused if its family and label source are at the cap. -/
def capStep (caps : ExportCaps) (counts : String × LabelSource → ℕ)
    (record : TrainingExample Body) : Option (String × LabelSource → ℕ) :=
  if caps.maxExamplesPerPartitionAndLabelSource ≤ counts (capKey record) then none
  else some (Function.update counts (capKey record) (counts (capKey record) + 1))

def applyCaps (caps : ExportCaps) (examples : List (TrainingExample Body)) :
    List (TrainingExample Body) :=
  scan (capStep caps) (fun _ ↦ 0) examples

/-! ## The exports -/

/-- All examples of the stream, which is corrupt if one of them is. -/
def allExamples (codec : FeedbackCodec Body) (stream : FeedbackStream) :
    Except String (List (TrainingExample Body)) :=
  (stream.flatMap fun entry ↦ entry.2.filter fun field ↦ field.1 = "data").mapM fun field ↦
    (codec.fromStr field.2).mapError ("corrupt feedback record: " ++ ·)

/-- The examples of actors that are not in quarantine, one of each cluster. -/
def filteredExamples (quarantined : Finset String) (excludeSafetySuite : Bool)
    (examples : List (TrainingExample Body)) : List (TrainingExample Body) :=
  let trusted := examples.filter fun record ↦ record.actor ∉ quarantined
  dedupByCluster (if excludeSafetySuite then trusted.filter fun record ↦ ¬ IsSafetySuite record
    else trusted)

/-- The lines of the examples of a partition, and how many there are. -/
def writeLines (codec : FeedbackCodec Body) (partition : Option FamilyId)
    (examples : List (TrainingExample Body)) : String × ℕ :=
  examples.foldl
    (fun (written, count) record ↦
      if partition.any (· ≠ record.partitionKey) then (written, count)
      else (written ++ codec.recordLine record ++ "\n", count + 1))
    ("", 0)

def exportJsonl (codec : FeedbackCodec Body) (caps : ExportCaps) (quarantined : Finset String)
    (stream : FeedbackStream) (partition : Option FamilyId) : Except String (String × ℕ) := do
  let examples ← allExamples codec stream
  return writeLines codec partition (applyCaps caps (filteredExamples quarantined true examples))

/-- The collections of a snapshot. -/
structure Snapshot (Body : Type) where
  train : List (TrainingExample Body)
  holdout : List (TrainingExample Body)
  safetySuite : List (TrainingExample Body)

def Snapshot.collection (snapshot : Snapshot Body) : SplitName → List (TrainingExample Body)
  | .train => snapshot.train
  | .holdout => snapshot.holdout
  | .neverTrainedSafetySuite => snapshot.safetySuite

def snapshotOf (familyHoldout : String → Bool) (caps : ExportCaps) (quarantined : Finset String)
    (examples : List (TrainingExample Body)) : Snapshot Body :=
  let (safetySuite, rest) := (filteredExamples quarantined false examples).partition
    fun record ↦ IsSafetySuite record
  let splits := rest.zip (assignSplit familyHoldout rest)
  { train := applyCaps caps ((splits.filter (·.2 = .train)).map Prod.fst)
    holdout := applyCaps caps ((splits.filter (·.2 = .holdout)).map Prod.fst)
    safetySuite }

/-- The text of a split file and the digest of its bytes. -/
def writeSplitFile (codec : FeedbackCodec Body) (examples : List (TrainingExample Body)) :
    String × Digest :=
  let text := String.join (examples.map fun record ↦ codec.recordLine record ++ "\n")
  (text, codec.sha256 (utf8 text))

def SplitName.all : List SplitName := [train, holdout, neverTrainedSafetySuite]

def Snapshot.manifest (codec : FeedbackCodec Body) (snapshot : Snapshot Body) (createdAt : ℤ) :
    ExportManifest :=
  let digests := SplitName.all.map fun split ↦ (writeSplitFile codec (snapshot.collection split)).2
  { snapshotId := Semantic.Signature.hexEncode
      (codec.sha256 (digests.flatMap Vector.toList)).toList
    createdAt
    entries := SplitName.all.map fun split ↦
      { split
        fileName := split.fileName
        sha256 := Semantic.Signature.hexEncode
          (writeSplitFile codec (snapshot.collection split)).2.toList
        recordCount := (snapshot.collection split).length } }

/-- The files of a snapshot in the order they are written. -/
def Snapshot.files (codec : FeedbackCodec Body) (snapshot : Snapshot Body) (createdAt : ℤ) :
    List (String × String) :=
  (SplitName.all.map fun split ↦
    (split.fileName, (writeSplitFile codec (snapshot.collection split)).1)) ++
    [("manifest.json", codec.manifestJson (snapshot.manifest codec createdAt))]

/-- The manifest and the files; nothing is written if the stream is corrupt. -/
def exportSnapshot (codec : FeedbackCodec Body) (caps : ExportCaps) (quarantined : Finset String)
    (stream : FeedbackStream) (createdAt : ℤ) :
    Except String (ExportManifest × List (String × String)) := do
  let examples ← allExamples codec stream
  let snapshot := snapshotOf (familyHashIsHoldout codec.sha256) caps quarantined examples
  return (snapshot.manifest codec createdAt, snapshot.files codec createdAt)

end Deblob.Redis
