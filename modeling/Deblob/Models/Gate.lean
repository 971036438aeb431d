import Deblob.Core.Identity
import Mathlib.Data.Int.Notation

/-!
# The evidence of a model and its gate

Evidence is checked against fixed thresholds and against the evidence of the model that is active.
The numbers are of any type with an addition and a comparison, and the Wilson bound is a parameter,
so nothing depends on how they are rounded.
-/

namespace Deblob.Models

open Core

/-- The metrics of a held-out run. -/
structure EvalMetricsSummary (F : Type) where
  totalCases : ℕ
  falseMergeCount : ℕ
  falseMergeTrapCount : ℕ
  wrongValidRate : F
  acceptedPrecision : F
  exactSemanticAccuracy : F
  retrievalRecallAt5 : Option F
deriving DecidableEq

structure FamilySlice (F : Type) where
  familyId : FamilyId
  n : ℕ
  correct : ℕ
  precision : F
deriving DecidableEq

structure GateEvidence (F : Type) where
  aggregate : EvalMetricsSummary F
  perFamily : List (FamilySlice F)
  falseMergeUpperCi : Option F
deriving DecidableEq

structure GateConfig (F : Type) where
  minTestN : ℕ
  maxWrongValidRate : F
  minAcceptedPrecision : F
  perFamilyMinN : ℕ
  perFamilyPrecisionFloor : F
  minRetrievalRecallAt5 : F
  nonInferiorityMargin : F
  retrievalNonInferiorityMargin : F
  maxFalseMergeUpperCi : F
  confidenceZ : F
  requireExplicitApproval : Bool
  minShadowHoldMs : ℤ
deriving DecidableEq

/-- The reasons of a gate, with the numbers their texts show. -/
inductive GateReason (F : Type) where
  | totalCases (total min : ℕ)
  | falseMergeCount (count : ℕ)
  | falseMergeUpperCi (upper max : F) (traps : ℕ)
  | wrongValidRate (rate max : F)
  | acceptedPrecision (precision min : F)
  | retrievalRecall (measured floor : F)
  | familyPrecision (slice : FamilySlice F) (lower floor : F)
  | regressesFalseMergeCount (candidate active : ℕ)
  | regressesAccuracy (margin candidate active : F)
  | regressesWrongValidRate (margin candidate active : F)
  | regressesRetrievalRecall (margin candidate active : F)

variable {F : Type} [LT F] [DecidableLT F]

/-- `wilson_bound`, given the successes, the cases, the confidence and the side. -/
abbrev WilsonBound (F : Type) : Type := ℕ → ℕ → F → Bool → F

def sliceReasons (wilsonBound : WilsonBound F) (gate : GateConfig F) (slice : FamilySlice F) :
    List (GateReason F) :=
  if slice.n < gate.perFamilyMinN then []
  else
    let lower := wilsonBound slice.correct slice.n gate.confidenceZ false
    if lower < gate.perFamilyPrecisionFloor then
      [.familyPrecision slice lower gate.perFamilyPrecisionFloor]
    else []

/-- Every reason why evidence fails its own gate. -/
def gateReasons (wilsonBound : WilsonBound F) (evidence : GateEvidence F) (gate : GateConfig F) :
    List (GateReason F) :=
  let agg := evidence.aggregate
  (if agg.totalCases < gate.minTestN then [.totalCases agg.totalCases gate.minTestN] else []) ++
  (if 0 < agg.falseMergeCount then [.falseMergeCount agg.falseMergeCount] else []) ++
  (match evidence.falseMergeUpperCi with
    | some upper =>
      if gate.maxFalseMergeUpperCi < upper then
        [.falseMergeUpperCi upper gate.maxFalseMergeUpperCi agg.falseMergeTrapCount]
      else []
    | none => []) ++
  (if gate.maxWrongValidRate < agg.wrongValidRate then
    [.wrongValidRate agg.wrongValidRate gate.maxWrongValidRate] else []) ++
  (if agg.acceptedPrecision < gate.minAcceptedPrecision then
    [.acceptedPrecision agg.acceptedPrecision gate.minAcceptedPrecision] else []) ++
  (match agg.retrievalRecallAt5 with
    | some measured =>
      if measured < gate.minRetrievalRecallAt5 then
        [.retrievalRecall measured gate.minRetrievalRecallAt5]
      else []
    | none => []) ++
  evidence.perFamily.flatMap (sliceReasons wilsonBound gate)

/-- Evidence that passes its gate has no false merges, whatever the thresholds are. -/
theorem falseMergeCount_of_gateReasons {wilsonBound : WilsonBound F} {evidence : GateEvidence F}
    {gate : GateConfig F} (hpassed : gateReasons wilsonBound evidence gate = []) :
    evidence.aggregate.falseMergeCount = 0 := by
  by_contra hpositive
  have hmem : GateReason.falseMergeCount evidence.aggregate.falseMergeCount ∈
      gateReasons wilsonBound evidence gate := by
    simp [gateReasons, Nat.pos_of_ne_zero hpositive]
  rw [hpassed] at hmem
  cases hmem

/-- Every reason why the evidence of a candidate is worse than that of the active model. -/
def regressionReasons [Add F] (candidate active : GateEvidence F) (gate : GateConfig F) :
    List (GateReason F) :=
  let c := candidate.aggregate
  let a := active.aggregate
  (if a.falseMergeCount < c.falseMergeCount then
    [.regressesFalseMergeCount c.falseMergeCount a.falseMergeCount] else []) ++
  (if c.exactSemanticAccuracy + gate.nonInferiorityMargin < a.exactSemanticAccuracy then
    [.regressesAccuracy gate.nonInferiorityMargin c.exactSemanticAccuracy a.exactSemanticAccuracy]
  else []) ++
  (if a.wrongValidRate + gate.nonInferiorityMargin < c.wrongValidRate then
    [.regressesWrongValidRate gate.nonInferiorityMargin c.wrongValidRate a.wrongValidRate]
  else []) ++
  (match c.retrievalRecallAt5, a.retrievalRecallAt5 with
    | some candidateRecall, some activeRecall =>
      if candidateRecall + gate.retrievalNonInferiorityMargin < activeRecall then
        [.regressesRetrievalRecall gate.retrievalNonInferiorityMargin candidateRecall activeRecall]
      else []
    | _, _ => [])

end Deblob.Models
