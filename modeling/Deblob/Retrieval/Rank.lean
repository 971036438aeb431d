import Deblob.Core.Identity
import Deblob.Lib.Groups
import Deblob.Retrieval.Distance
import Mathlib.Data.Prod.Lex

/-!
# Ranking of families

The schemas of a neighborhood are scored by their distance from the candidate. Of every family the
nearest version is kept, and the nearest families are ranked from one on.
-/

namespace Deblob.Retrieval

open Core Lib
open Umbrella (Value)

def retrievalVersion : ℕ := 2

/-- A published schema as the registry lists it. -/
structure FamilyRef where
  familyId : FamilyId
  schemaId : SchemaId
  version : ℕ
  canonical : Bytes

structure FamilyCandidate where
  familyId : FamilyId
  schemaId : SchemaId
  version : ℕ
  distance : ℚ
  rank : ℕ
deriving DecidableEq

structure RetrievalResult where
  candidates : List FamilyCandidate
  ties : List FamilyCandidate
  top1Top2Margin : ℚ
  retrievalVersion : ℕ

/-- Versions of a family by distance, version and identifier. -/
def versionKey (candidate : FamilyCandidate) : ℚ ×ₗ ℕ ×ₗ String :=
  toLex (candidate.distance, toLex (candidate.version, candidate.schemaId.asStr))

/-- Families by distance and name. -/
def rankingKey (candidate : FamilyCandidate) : ℚ ×ₗ String :=
  toLex (candidate.distance, candidate.familyId.asStr)

def familyName (candidate : FamilyCandidate) : String := candidate.familyId.asStr

theorem distance_le_of_versionKey {left right : FamilyCandidate}
    (hle : versionKey left ≤ versionKey right) : left.distance ≤ right.distance :=
  Prod.Lex.monotone_fst_ofLex hle

theorem distance_le_of_rankingKey {left right : FamilyCandidate}
    (hle : rankingKey left ≤ rankingKey right) : left.distance ≤ right.distance :=
  Prod.Lex.monotone_fst_ofLex hle

theorem familyName_inj {left right : FamilyCandidate} :
    familyName left = familyName right ↔ left.familyId = right.familyId := by
  rcases left with ⟨⟨left⟩, _, _, _, _⟩
  rcases right with ⟨⟨right⟩, _, _, _, _⟩
  simp [familyName]

section

variable (unicode : Unicode) (fromStr : Bytes → Except String Value)

/-- The rank is assigned after the final sort. -/
def score (features : StructuralFeatures) (ref : FamilyRef) : FamilyCandidate where
  familyId := ref.familyId
  schemaId := ref.schemaId
  version := ref.version
  distance := (computeDistance features
    (extractFeatures unicode (fieldSigFromCanonical fromStr ref.canonical))).total
  rank := 0

def scoreRefs (features : StructuralFeatures) (refs : List FamilyRef) : List FamilyCandidate :=
  refs.map (score unicode fromStr features)

def familyRepresentatives (scored : List FamilyCandidate) : List FamilyCandidate :=
  sortOn rankingKey (leastOfGroups familyName versionKey scored)

def approxEq (left right : ℚ) : Bool := |left - right| < 1 / 10 ^ 6

def ranked (candidates : List FamilyCandidate) : List FamilyCandidate :=
  candidates.zipIdx.map fun (candidate, index) ↦ { candidate with rank := index + 1 }

def top1Top2Margin : List FamilyCandidate → ℚ
  | first :: second :: _ => second.distance - first.distance
  | _ => 0

def rankCandidates (features : StructuralFeatures) (refs : List FamilyRef) (k : ℕ) :
    RetrievalResult :=
  let representatives := familyRepresentatives (scoreRefs unicode fromStr features refs)
  let top := ranked (representatives.take k)
  { candidates := top
    ties := match top.getLast? with
      | some boundary =>
        ((representatives.drop top.length).filter fun candidate ↦
          approxEq candidate.distance boundary.distance).map fun candidate ↦
            { candidate with rank := top.length }
      | none => []
    top1Top2Margin := top1Top2Margin top
    retrievalVersion := retrievalVersion }

end

end Deblob.Retrieval
