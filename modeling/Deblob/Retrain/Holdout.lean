import Deblob.Lib.TextLines
import Deblob.Models.Registry
import Deblob.Redis.FeedbackExport
import Deblob.Retrain.Curation

/-!
# Retraining and the held-out cases

One retraining cycle curates the training cases of the corpus, adds every line that the feedback
store exports, hands the replay set to the external hook and evaluates the artifact on the test
cases. The curated lines have the families of the training cases. The exported lines have whatever
families live traffic had, and nothing compares those with the test cases.
-/

namespace Deblob.Retrain

open Core Lib Redis
open Models (GateEvidence ModelVersion)

/-! ## The cycle -/

/-- What the hook produces. -/
structure ModelArtifact where
  modelId : String
  trainingCheckpointDigest : String
  quantizedWeightsDigest : String
deriving DecidableEq

inductive RetrainError where
  | noHoldout
  | store (message : String)
  | fineTune (message : String)
deriving DecidableEq

structure CurationReport where
  stratumCounts : List (ReplayStratum × ℕ)
  cappedEasyPositiveCount : ℕ
  familiesRepresented : ℕ
  totalCurated : ℕ
deriving DecidableEq

def ReplayStratum.all : List ReplayStratum :=
  [historicalReplay, immutableGolden, noCall, rareAdversarial, recentCorrection]

/-- The strata that have lines, in the order of their texts. -/
def stratumCounts (lines : List ReplayLine) : List (ReplayStratum × ℕ) :=
  (ReplayStratum.all.map fun stratum ↦
    (stratum, (lines.filter fun line ↦ line.stratum = stratum).length)).filter (0 < ·.2)

def familiesRepresented (lines : List ReplayLine) : Finset String :=
  (lines.filterMap ReplayLine.familyId).toFinset

def curationReport (lines : List ReplayLine) (capped : ℕ) : CurationReport where
  stratumCounts := stratumCounts lines
  cappedEasyPositiveCount := capped
  familiesRepresented := (familiesRepresented lines).card
  totalCurated := lines.length

/-- What a cycle does outside of its own process, in its order. -/
inductive RetrainEffect (F Bundle : Type) where
  | train (baseSnapshot : String) (replaySet : List ReplayLine)
  | evaluate (cases : List EvalCase)
  | registerCandidate (candidate : ModelVersion F Bundle)
  | attachEvidence (modelId : String) (evidence : GateEvidence F)

/-- The decision of the gate and the curated mix. -/
structure RetrainOutcome (Decision : Type) where
  gateDecision : Decision
  curationReport : CurationReport

/-- The code around a cycle: the hook, the evaluation, the registry and the JSON reader. -/
structure RetrainPorts (F Bundle Decision : Type) where
  train : String → List ReplayLine → Except String ModelArtifact
  evaluate : List EvalCase → GateEvidence F
  bundle : String → Bundle
  registerCandidate : ModelVersion F Bundle → Except String Unit
  attachEvidence : String → GateEvidence F → Except String Decision
  partitionKey : String → Option String

def isWhitespace (char : Char) : Bool :=
  (0x09 ≤ char.toNat && char.toNat ≤ 0x0D) || char.toNat = 0x20 || char.toNat = 0x85 ||
    char.toNat = 0xA0 || char.toNat = 0x1680 ||
    (0x2000 ≤ char.toNat && char.toNat ≤ 0x200A) || char.toNat = 0x2028 ||
    char.toNat = 0x2029 || char.toNat = 0x202F || char.toNat = 0x205F || char.toNat = 0x3000

/-- Nothing is left of the line when it is trimmed. -/
def isBlank (line : String) : Bool := line.toList.all isWhitespace

/-- The feedback store as a cycle finds it. -/
structure FeedbackContent (Body : Type) where
  codec : FeedbackCodec Body
  caps : ExportCaps
  quarantined : Finset String
  stream : FeedbackStream

section

variable {Margin F Bundle Decision Body : Type} [LinearOrder Margin] (gap : ℚ → ℚ → Margin)
  (maxMargin : Margin) (ports : RetrainPorts F Bundle Decision)

def trainCases (corpus : List EvalCase) : List EvalCase :=
  corpus.filter fun case ↦ case.partition = .train

def holdoutCases (corpus : List EvalCase) : List EvalCase :=
  corpus.filter fun case ↦ case.partition = .test

/-- The line of the replay set for a line of the export. -/
def correctionLine (rawLine : String) : ReplayLine where
  stratum := .recentCorrection
  familyId := ports.partitionKey rawLine
  jsonLine := rawLine

/-- The curated lines, and a line for every exported line that is not blank. -/
def replayLines (corpus : List EvalCase) (curation : CurationConfig) (feedbackText : String) :
    List ReplayLine :=
  (curateSynthetic gap maxMargin (trainCases corpus) curation).1 ++
    ((textLines feedbackText).filter fun rawLine ↦ !isBlank rawLine).map
      (correctionLine ports)

/-- The candidate of an artifact; it is registered bare. -/
def candidateOf (artifact : ModelArtifact) : ModelVersion F Bundle where
  modelId := artifact.modelId
  bundle := ports.bundle artifact.quantizedWeightsDigest
  evidence := none
  shadowSince := none
  state := .candidate

/-- After the replay set is complete: train, evaluate, register, attach the evidence. -/
def retrainOn (corpus : List EvalCase) (baseSnapshot : String) (lines : List ReplayLine)
    (report : CurationReport) :
    List (RetrainEffect F Bundle) × Except RetrainError (RetrainOutcome Decision) :=
  match ports.train baseSnapshot lines with
  | .error message => ([.train baseSnapshot lines], .error (.fineTune message))
  | .ok artifact =>
    let evidence := ports.evaluate (holdoutCases corpus)
    let candidate := candidateOf ports artifact
    match ports.registerCandidate candidate with
    | .error message =>
      ([.train baseSnapshot lines, .evaluate (holdoutCases corpus), .registerCandidate candidate],
        .error (.store message))
    | .ok () =>
      ([.train baseSnapshot lines, .evaluate (holdoutCases corpus), .registerCandidate candidate,
          .attachEvidence candidate.modelId evidence],
        match ports.attachEvidence candidate.modelId evidence with
        | .error message => .error (.store message)
        | .ok gateDecision => .ok ⟨gateDecision, report⟩)

/-- `RetrainPlan::run`. -/
def run (feedback : FeedbackContent Body) (corpus : List EvalCase) (baseSnapshot : String)
    (curation : CurationConfig) :
    List (RetrainEffect F Bundle) × Except RetrainError (RetrainOutcome Decision) :=
  if (holdoutCases corpus).isEmpty then ([], .error .noHoldout)
  else match exportJsonl feedback.codec feedback.caps feedback.quarantined feedback.stream none with
    | .error message => ([], .error (.store message))
    | .ok (feedbackText, _) =>
      let lines := replayLines gap maxMargin ports corpus curation feedbackText
      retrainOn ports corpus baseSnapshot lines (curationReport lines
        (curateSynthetic gap maxMargin (trainCases corpus) curation).2)

/-! ## The replay set -/

/-- A line of the replay set evidences a family of the cases. -/
def Seen (lines : List ReplayLine) (cases : List EvalCase) : Prop :=
  ∃ line ∈ lines, ∃ case ∈ cases, ∃ family, familyOf case = some family ∧
    line.familyId = some family.asStr

/-- The rendered example is one line of JSON that has the family. -/
structure ReadsBack (codec : FeedbackCodec Body) (record : TrainingExample Body) : Prop where
  isLine : IsLine (codec.recordLine record)
  notBlank : isBlank (codec.recordLine record) = false
  family : ports.partitionKey (codec.recordLine record) = some record.partitionKey.asStr

/-- The curated lines have the families of the cases they come from. -/
theorem exists_of_mem_curateSynthetic {cases : List EvalCase} {config : CurationConfig}
    {line : ReplayLine} (hline : line ∈ (curateSynthetic gap maxMargin cases config).1) :
    ∃ case ∈ cases, line.familyId = (familyOf case).map FamilyId.asStr := by
  rw [curateSynthetic_eq] at hline
  rcases List.mem_map.mp hline with ⟨case, hcase, rfl⟩
  exact ⟨case, keptCases_append_cappedCases_perm.mem_iff.mp (List.mem_append_left _ hcase), rfl⟩

/-- Every exported example has its line. -/
theorem replayLines_linesOf {corpus : List EvalCase} {curation : CurationConfig}
    {codec : FeedbackCodec Body} {examples : List (TrainingExample Body)}
    (hreads : ∀ record ∈ examples, ReadsBack ports codec record) :
    replayLines gap maxMargin ports corpus curation (linesOf codec examples).1 =
      (curateSynthetic gap maxMargin (trainCases corpus) curation).1 ++
        examples.map fun record ↦ ⟨.recentCorrection, some record.partitionKey.asStr,
          codec.recordLine record⟩ := by
  have hlines : textLines (linesOf codec examples).1 = examples.map codec.recordLine := by
    have hall : ∀ line ∈ examples.map codec.recordLine, IsLine line :=
      List.forall_mem_map.mpr fun record hrecord ↦ (hreads record hrecord).isLine
    rw [← textLines_join hall, linesOf, List.map_map]
    rfl
  have hfull : (examples.map codec.recordLine).filter (fun rawLine ↦ !isBlank rawLine) =
      examples.map codec.recordLine := by
    refine List.filter_eq_self.mpr (List.forall_mem_map.mpr fun record hrecord ↦ ?_)
    rw [(hreads record hrecord).notBlank]
    rfl
  rw [replayLines, hlines, hfull, List.map_map]
  refine congrArg _ (List.map_congr_left fun record hrecord ↦ ?_)
  rw [Function.comp_apply, correctionLine, (hreads record hrecord).family]

/-! ## What a cycle does -/

/-- The hook is called with the curated and the exported lines, if there is a test case and the
stream is not corrupt. -/
theorem train_mem_run_iff {feedback : FeedbackContent Body} {corpus : List EvalCase}
    {baseSnapshot base : String} {curation : CurationConfig} {lines : List ReplayLine} :
    .train base lines ∈
        (run gap maxMargin ports feedback corpus baseSnapshot curation).1 ↔
      holdoutCases corpus ≠ [] ∧ base = baseSnapshot ∧
        ∃ exported, exportJsonl feedback.codec feedback.caps feedback.quarantined feedback.stream
          none = .ok exported ∧
          lines = replayLines gap maxMargin ports corpus curation exported.1 := by
  have htrain (present : List ReplayLine) (report : CurationReport) :
      .train base lines ∈ (retrainOn ports corpus baseSnapshot present report).1 ↔
        base = baseSnapshot ∧ lines = present := by
    unfold retrainOn
    split
    · simp
    · dsimp only
      split <;> simp
  unfold run
  split_ifs with hempty
  · simp [List.isEmpty_iff.mp hempty]
  · rw [List.isEmpty_iff] at hempty
    cases hexport : exportJsonl feedback.codec feedback.caps feedback.quarantined feedback.stream
        none with
    | error message => simp
    | ok exported => simp [htrain, hempty]

/-- Only the test cases are evaluated. -/
theorem evaluate_mem_run {feedback : FeedbackContent Body} {corpus cases : List EvalCase}
    {baseSnapshot : String} {curation : CurationConfig}
    (hevaluate : .evaluate cases ∈
      (run gap maxMargin ports feedback corpus baseSnapshot curation).1) :
    cases = holdoutCases corpus := by
  have hretrain {lines : List ReplayLine} {report : CurationReport}
      (hmem : .evaluate cases ∈ (retrainOn ports corpus baseSnapshot lines report).1) :
      cases = holdoutCases corpus := by
    unfold retrainOn at hmem
    split at hmem
    · simp at hmem
    · dsimp only at hmem
      split at hmem <;> simpa using hmem
  unfold run at hevaluate
  split_ifs at hevaluate
  · cases hevaluate
  · split at hevaluate
    · cases hevaluate
    · exact hretrain hevaluate

/-- The replay set of a stored stream shows a test case exactly if the training blob does. -/
theorem seen_replayLines_iff {feedback : FeedbackContent Body} {corpus : List EvalCase}
    (curation : CurationConfig) {examples : List (TrainingExample Body)}
    (hdisjoint : ∀ trained ∈ trainCases corpus, ∀ tested ∈ holdoutCases corpus,
      familyOf trained = familyOf tested → familyOf trained = none)
    (hreads : ∀ record ∈ examples, ReadsBack ports feedback.codec record) :
    Seen (replayLines gap maxMargin ports corpus curation
        (linesOf feedback.codec
          (exportedExamples feedback.caps feedback.quarantined examples)).1)
        (holdoutCases corpus) ↔
      ∃ case ∈ holdoutCases corpus, ∃ family, familyOf case = some family ∧
        ∃ record ∈ exportedExamples feedback.caps feedback.quarantined examples,
          record.partitionKey.asStr = family.asStr := by
  have hexported : ∀ record ∈ exportedExamples feedback.caps feedback.quarantined examples,
      ReadsBack ports feedback.codec record := fun record hrecord ↦
    hreads record (mem_exportedExamples _ _ hrecord).1
  rw [replayLines_linesOf gap maxMargin ports hexported]
  constructor
  · rintro ⟨line, hline, case, hcase, family, hfamily, hseen⟩
    rcases List.mem_append.mp hline with hcurated | hcorrection
    · rcases exists_of_mem_curateSynthetic gap maxMargin hcurated with ⟨trained, htrained, heq⟩
      rw [hseen, eq_comm, Option.map_eq_some_iff] at heq
      rcases heq with ⟨⟨text⟩, hsome, rfl⟩
      have hnone := hdisjoint trained htrained case hcase (hsome.trans hfamily.symm)
      rw [hsome] at hnone
      cases hnone
    · rcases List.mem_map.mp hcorrection with ⟨record, hrecord, rfl⟩
      exact ⟨case, hcase, family, hfamily, record, hrecord, Option.some.inj hseen⟩
  · rintro ⟨case, hcase, family, hfamily, record, hrecord, heq⟩
    refine ⟨_, List.mem_append_right _ (List.mem_map_of_mem hrecord), case, hcase, family, hfamily,
      ?_⟩
    rw [heq]

/-- A cycle is evaluated on the test cases only. What the hook was trained on has no family of a
test case exactly if no stored example of such a family goes to the training blob: every one comes
from an actor in quarantine, is of the safety suite or comes after another example of its cluster,
or nothing is exported at all. -/
theorem exam_unseen_iff (feedback : FeedbackContent Body) (corpus : List EvalCase)
    (baseSnapshot : String) (curation : CurationConfig)
    (hdisjoint : ∀ trained ∈ trainCases corpus, ∀ tested ∈ holdoutCases corpus,
      familyOf trained = familyOf tested → familyOf trained = none)
    (hreads : ∀ examples, allExamples feedback.codec feedback.stream = .ok examples →
      ∀ record ∈ examples, ReadsBack ports feedback.codec record) :
    (∀ cases, .evaluate cases ∈
        (run gap maxMargin ports feedback corpus baseSnapshot curation).1 →
      cases = holdoutCases corpus) ∧
    ((∀ base lines, .train base lines ∈
          (run gap maxMargin ports feedback corpus baseSnapshot curation).1 →
        ¬ Seen lines (holdoutCases corpus)) ↔
      ∀ examples, allExamples feedback.codec feedback.stream = .ok examples →
        0 < feedback.caps.maxExamplesPerPartitionAndLabelSource →
          ∀ before record after, examples = before ++ record :: after →
            Offered feedback.quarantined record →
            FirstOfCluster (before.filter fun other ↦ Offered feedback.quarantined other) record →
              ∀ case ∈ holdoutCases corpus, familyOf case ≠ some record.partitionKey) := by
  refine ⟨fun cases ↦ evaluate_mem_run gap maxMargin ports, ?_, ?_⟩
  · intro hunseen examples hstored hcap before record after hsplit hoffered hfirst case hcase
      hfamily
    refine hunseen baseSnapshot _ ((train_mem_run_iff gap maxMargin ports).mpr
      ⟨List.ne_nil_of_mem hcase, rfl, _, exportJsonl_none _ _ hstored, rfl⟩) ?_
    rw [seen_replayLines_iff gap maxMargin ports curation hdisjoint (hreads examples hstored)]
    refine ⟨case, hcase, _, hfamily, (exists_exportedExamples_iff _ _ _ _).mpr
      ⟨hcap, before, record, after, hsplit, hoffered, hfirst, rfl⟩⟩
  · intro hoffered base lines htrain
    rcases (train_mem_run_iff gap maxMargin ports).mp htrain with
      ⟨_, _, exported, hexport, rfl⟩
    cases hstored : allExamples feedback.codec feedback.stream with
    | error message =>
        rw [exportJsonl, hstored] at hexport
        cases hexport
    | ok examples =>
        rw [exportJsonl_none _ _ hstored, Except.ok.injEq] at hexport
        rw [← hexport,
          seen_replayLines_iff gap maxMargin ports curation hdisjoint (hreads examples hstored)]
        rintro ⟨case, hcase, family, hfamily, hrecord⟩
        rcases (exists_exportedExamples_iff _ _ _ _).mp hrecord with
          ⟨hcap, before, record, after, hsplit, hrecord, hfirst, heq⟩
        refine hoffered examples hstored hcap before record after hsplit hrecord hfirst case hcase
          ?_
        exact hfamily.trans (congrArg (some ∘ FamilyId.mk) heq.symm)

end

/-! ## A correction about a held-out family -/

def heldOutFamily : FamilyId := ⟨"fam_01981f0e-5a7c-7d3b-9e42-6b1f0c2d3e4f"⟩

def trainedFamily : FamilyId := ⟨"fam_01981f0e-5a7c-7d3b-9e42-000000000001"⟩

def driftCase (family : FamilyId) (partition : Partition) : EvalCase where
  name := "renamed_total"
  category := .compatibleDrift
  candidate := ⟨50, [], false⟩
  retrieved := [⟨family, DigestId.fromDigest (Vector.replicate 32 1), 1, 0, 1⟩]
  expected := ⟨.newCandidate .structural, none, none, false, false⟩
  partition := partition

def driftCorpus : List EvalCase := [driftCase trainedFamily .train, driftCase heldOutFamily .test]

def promotedExample (family : FamilyId) : TrainingExample Unit :=
  ⟨(), .humanPromote, family, "alice", ""⟩

def promotedLine (family : FamilyId) : String :=
  "\x7b\"actor\":\"alice\",\"dedup_cluster\":\"\",\"label_source\":\"human_promote\"," ++
    "\"partition_key\":\"" ++ family.asStr ++ "\"\x7d"

/-- One promotion was captured, about the family. -/
def promotedFeedback (family : FamilyId) : FeedbackContent Unit where
  codec :=
    { fromStr := fun _ ↦ .ok (promotedExample family)
      recordLine := fun record ↦ promotedLine record.partitionKey
      manifestJson := fun manifest ↦ manifest.snapshotId
      sha256 := fun _ ↦ Vector.replicate 32 0 }
  caps := default
  quarantined := ∅
  stream := [("1-0", [("data", "\x7b\x7d")])]

def promotedPorts (family : FamilyId) : RetrainPorts ℕ String Bool where
  train _ _ := .ok ⟨"m1", "c1", "q1"⟩
  evaluate cases := ⟨⟨cases.length, 0, 0, 0, 0, 0, none⟩, [], none⟩
  bundle digest := digest
  registerCandidate _ := .ok ()
  attachEvidence _ _ := .ok true
  partitionKey line := if line = promotedLine family then some family.asStr else none

theorem allExamples_promotedFeedback (family : FamilyId) :
    allExamples (promotedFeedback family).codec (promotedFeedback family).stream =
      .ok [promotedExample family] := by
  simp only [allExamples, promotedFeedback, List.flatMap_cons, List.flatMap_nil, List.filter_cons,
    List.filter_nil, decide_true, if_true, List.append_nil]
  rfl

theorem readsBack_promotedFeedback {family : FamilyId}
    (hfamily : family ∈ [heldOutFamily, trainedFamily]) :
    ∀ examples, allExamples (promotedFeedback family).codec (promotedFeedback family).stream =
        .ok examples →
      ∀ record ∈ examples,
        ReadsBack (promotedPorts family) (promotedFeedback family).codec record := by
  intro examples hstored record hrecord
  rw [allExamples_promotedFeedback, Except.ok.injEq] at hstored
  rw [← hstored, List.mem_singleton] at hrecord
  subst hrecord
  rcases List.mem_pair.mp hfamily with rfl | rfl
  · exact ⟨⟨by decide +kernel, by decide +kernel⟩, by decide +kernel, by decide +kernel⟩
  · exact ⟨⟨by decide +kernel, by decide +kernel⟩, by decide +kernel, by decide +kernel⟩

theorem driftCorpus_disjoint : ∀ trained ∈ trainCases driftCorpus,
    ∀ tested ∈ holdoutCases driftCorpus, familyOf trained = familyOf tested →
      familyOf trained = none := by
  have htrain : trainCases driftCorpus = [driftCase trainedFamily .train] := rfl
  have htest : holdoutCases driftCorpus = [driftCase heldOutFamily .test] := rfl
  rw [htrain, htest]
  simp only [List.mem_singleton, forall_eq]
  decide +kernel

/-- The stored example is of a family of the training cases. -/
theorem exam_unseen_iff_trainedFamily :
    holdoutCases driftCorpus = [driftCase heldOutFamily .test] ∧
    ∀ base lines, .train base lines ∈
        (run (fun left right : ℚ ↦ |left - right|) 1000 (promotedPorts trainedFamily)
          (promotedFeedback trainedFamily) driftCorpus "base" default).1 →
      ¬ Seen lines (holdoutCases driftCorpus) := by
  refine ⟨rfl, (exam_unseen_iff _ _ (promotedPorts trainedFamily) (promotedFeedback trainedFamily)
    driftCorpus "base" default driftCorpus_disjoint
    (readsBack_promotedFeedback (by simp))).2.mpr ?_⟩
  intro examples hstored _ before record after hsplit _ _ case hcase
  rw [allExamples_promotedFeedback, Except.ok.injEq] at hstored
  have hrecord : record ∈ [promotedExample trainedFamily] := by
    rw [hstored, hsplit]
    simp
  have htest : holdoutCases driftCorpus = [driftCase heldOutFamily .test] := rfl
  rw [htest, List.mem_singleton] at hcase
  rw [hcase, List.mem_singleton.mp hrecord]
  decide +kernel

/-- A promotion about a family of a test case is trained on before the test case is evaluated. -/
theorem exam_seen :
    trainCases driftCorpus = [driftCase trainedFamily .train] ∧
    holdoutCases driftCorpus = [driftCase heldOutFamily .test] ∧
    trainedFamily ≠ heldOutFamily ∧
    ∃ lines, (run (fun left right : ℚ ↦ |left - right|) 1000 (promotedPorts heldOutFamily)
        (promotedFeedback heldOutFamily) driftCorpus "base" default).1 =
      [.train "base" lines, .evaluate (holdoutCases driftCorpus),
        .registerCandidate ⟨"m1", "q1", none, none, .candidate⟩,
        .attachEvidence "m1" ⟨⟨1, 0, 0, 0, 0, 0, none⟩, [], none⟩] ∧
      Seen lines (holdoutCases driftCorpus) := by
  have hstored := allExamples_promotedFeedback heldOutFamily
  have hseen := (seen_replayLines_iff (fun left right : ℚ ↦ |left - right|) 1000
    (promotedPorts heldOutFamily) default driftCorpus_disjoint
    (readsBack_promotedFeedback (by simp) _ hstored)).mpr
    ⟨driftCase heldOutFamily .test, by simp [holdoutCases, driftCorpus, driftCase], heldOutFamily,
      rfl, promotedExample heldOutFamily, by decide +kernel, rfl⟩
  refine ⟨rfl, rfl, by decide +kernel, _, ?_, hseen⟩
  rw [run, if_neg (by decide +kernel), exportJsonl_none _ _ hstored]
  rfl

end Deblob.Retrain
