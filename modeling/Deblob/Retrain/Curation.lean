import Deblob.Lib.CappedGroups
import Deblob.Retrieval.Policy
import Deblob.Slm.Prompt

/-!
# The curated replay set

The training cases of the synthetic corpus become lines of the replay set. Every case has a stratum;
the easy positives, which no rule singles out, are capped for each family, and of those the ones
with the smallest retrieval margin are kept. The arithmetic of the margins is a parameter.
-/

namespace Deblob.Retrain

open Core Lib
open Retrieval (FamilyCandidate InferenceDecision Relation Novelty AbstainCause)
open Slm (CandidateProfileView jsonStringLiteral promptText)

/-! ## Cases -/

inductive Category where
  | knownExact
  | compatibleDrift
  | incompatibleUnsafe
  | newFamily
  | ambiguousAdversarial
deriving DecidableEq

inductive Partition where
  | train
  | test
deriving DecidableEq

def Partition.asStr : Partition → String
  | train => "train"
  | test => "test"

/-- What a correct answer to a case is. -/
structure Expected where
  decision : InferenceDecision
  goldSchemaId : Option SchemaId
  goldRank : Option ℕ
  falseMergeTrap : Bool
  falseSplitTrap : Bool
deriving DecidableEq

structure EvalCase where
  name : String
  category : Category
  candidate : CandidateProfileView
  retrieved : List FamilyCandidate
  expected : Expected
  partition : Partition
deriving DecidableEq

/-! ## Lines -/

inductive ReplayStratum where
  | immutableGolden
  | historicalReplay
  | recentCorrection
  | rareAdversarial
  | noCall
deriving DecidableEq

structure ReplayLine where
  stratum : ReplayStratum
  familyId : Option String
  jsonLine : String
deriving DecidableEq

structure CurationConfig where
  maxEasyPositivesPerFamily : ℕ

instance : Inhabited CurationConfig := ⟨⟨3⟩⟩

def familyOf (case : EvalCase) : Option FamilyId := case.retrieved.head?.map (·.familyId)

def classifyStratum (case : EvalCase) : ReplayStratum :=
  if case.expected.falseMergeTrap || case.expected.falseSplitTrap ||
      case.category = .incompatibleUnsafe then .immutableGolden
  else if case.category = .ambiguousAdversarial then .rareAdversarial
  else match case.expected.decision with
    | .abstain _ => .noCall
    | _ => .historicalReplay

def relationText : Relation → String
  | .exact => "exact"
  | .compatibleDrift => "compatible_drift"
  | .incompatibleSimilarity => "incompatible_similarity"

def noveltyText : Novelty → String
  | .structural => "structural"
  | .semantic => "semantic"

def abstainCauseText : AbstainCause → String
  | .ambiguous => "ambiguous"
  | .insufficientEvidence => "insufficient_evidence"
  | .candidateMissing => "candidate_missing"

/-- The object of an answer; its keys are sorted. -/
def decisionJson : InferenceDecision → String
  | .matchSchema schemaId relation =>
    "\x7b\"decision\":\"match_schema\",\"relation\":\"" ++ relationText relation ++
      "\",\"schema_id\":" ++ jsonStringLiteral schemaId.asStr ++ "\x7d"
  | .newCandidate novelty =>
    "\x7b\"decision\":\"new_candidate\",\"novelty\":\"" ++ noveltyText novelty ++ "\"\x7d"
  | .abstain cause =>
    "\x7b\"cause\":\"" ++ abstainCauseText cause ++ "\",\"decision\":\"abstain\"\x7d"

/-- The record of a case without the line feed. -/
def renderCaseLine (case : EvalCase) : String :=
  "\x7b\"case_name\":" ++ jsonStringLiteral case.name ++ ",\"gold_tool_call\":" ++
    decisionJson case.expected.decision ++ ",\"partition\":\"" ++ case.partition.asStr ++
    "\",\"prompt\":" ++
    jsonStringLiteral
      (promptText case.candidate case.retrieved (case.retrieved.map (·.schemaId))) ++ "\x7d"

def replayLine (stratum : ReplayStratum) (case : EvalCase) : ReplayLine where
  stratum := stratum
  familyId := (familyOf case).map FamilyId.asStr
  jsonLine := renderCaseLine case

/-! ## Curation -/

/-- The name of the group of an easy positive. -/
def familyKey (case : EvalCase) : String := ((familyOf case).map FamilyId.asStr).getD ""

/-- The lines of the cases that are never capped, and the easy positives with their margins. -/
structure Stratified (Margin : Type) where
  lines : List ReplayLine
  easyByFamily : List (String × List (EvalCase × Margin))

section

variable {Margin : Type} [LinearOrder Margin] (gap : ℚ → ℚ → Margin) (maxMargin : Margin)

/-- A case with fewer than two retrieved families is the least informative. -/
def marginOf (case : EvalCase) : Margin :=
  match case.retrieved with
  | first :: second :: _ => gap second.distance first.distance
  | _ => maxMargin

def stratify (state : Stratified Margin) (case : EvalCase) : Stratified Margin :=
  if classifyStratum case = .historicalReplay then
    { state with
      easyByFamily := insertWith (familyKey case) [(case, marginOf gap maxMargin case)]
        (· ++ [(case, marginOf gap maxMargin case)]) state.easyByFamily }
  else { state with lines := state.lines ++ [replayLine (classifyStratum case) case] }

/-- One easy positive of a family at its place in the sorted group. -/
def keepEasy (config : CurationConfig) (state : List ReplayLine × ℕ)
    (placed : (EvalCase × Margin) × ℕ) : List ReplayLine × ℕ :=
  if placed.2 < config.maxEasyPositivesPerFamily then
    (state.1 ++ [replayLine .historicalReplay placed.1.1], state.2)
  else (state.1, state.2 + 1)

/-- The lines, and how many easy positives were capped. -/
def curateSynthetic (trainCases : List EvalCase) (config : CurationConfig) :
    List ReplayLine × ℕ :=
  let stratified := trainCases.foldl (stratify gap maxMargin) ⟨[], []⟩
  stratified.easyByFamily.foldl
    (fun state group ↦ (sortOn Prod.snd group.2).zipIdx.foldl (keepEasy config) state)
    (stratified.lines, 0)

/-! ## What curation keeps -/

def IsEasy (case : EvalCase) : Prop := classifyStratum case = .historicalReplay

instance : DecidablePred IsEasy := fun _ ↦ inferInstanceAs (Decidable (_ = _))

/-- The kept cases: all that are not easy, and the least easy ones of every family. -/
def keptCases (config : CurationConfig) (cases : List EvalCase) : List EvalCase :=
  cases.filter (fun case ↦ ¬ IsEasy case) ++
    keptOfGroups familyKey (marginOf gap maxMargin) config.maxEasyPositivesPerFamily
      (cases.filter IsEasy)

def cappedCases (config : CurationConfig) (cases : List EvalCase) : List EvalCase :=
  droppedOfGroups familyKey (marginOf gap maxMargin) config.maxEasyPositivesPerFamily
    (cases.filter IsEasy)

/-- The easy positives of a family. -/
def easyOf (family : String) (cases : List EvalCase) : List EvalCase :=
  cases.filter fun case ↦ IsEasy case ∧ familyKey case = family

def keptLine (case : EvalCase) : ReplayLine := replayLine (classifyStratum case) case

omit [LinearOrder Margin] in
/-- The first loop separates the easy positives from the others. -/
theorem foldl_stratify (cases : List EvalCase) :
    cases.foldl (stratify gap maxMargin) ⟨[], []⟩ =
      ⟨(cases.filter fun case ↦ ¬ IsEasy case).map keptLine,
        groupOn (fun pair ↦ familyKey pair.1)
          ((cases.filter IsEasy).map fun case ↦ (case, marginOf gap maxMargin case))⟩ := by
  induction cases using List.reverseRecOn with
  | nil => rfl
  | append_singleton cases case ih =>
      rw [List.foldl_append, List.foldl_cons, List.foldl_nil, ih]
      by_cases heasy : IsEasy case
      · rw [stratify, if_pos (show classifyStratum case = _ from heasy)]
        simp [List.filter_append, heasy, groupOn_concat]
      · rw [stratify, if_neg (show ¬ classifyStratum case = _ from heasy)]
        simp [List.filter_append, heasy, keptLine]

omit [LinearOrder Margin] in
/-- The cases of one group are kept up to the cap, and the others are counted. -/
theorem foldl_keepEasy (config : CurationConfig) (group : List (EvalCase × Margin)) (start : ℕ)
    (state : List ReplayLine × ℕ) :
    (group.zipIdx start).foldl (keepEasy config) state =
      (state.1 ++ (group.take (config.maxEasyPositivesPerFamily - start)).map
          (fun pair ↦ replayLine .historicalReplay pair.1),
        state.2 + (group.drop (config.maxEasyPositivesPerFamily - start)).length) := by
  induction group generalizing start state with
  | nil => simp
  | cons pair group ih =>
      rw [List.zipIdx_cons, List.foldl_cons, ih]
      by_cases hroom : start < config.maxEasyPositivesPerFamily
      · have hcap : config.maxEasyPositivesPerFamily - start =
            config.maxEasyPositivesPerFamily - (start + 1) + 1 := by omega
        rw [keepEasy, if_pos hroom, hcap]
        simp
      · have hcap : config.maxEasyPositivesPerFamily - start = 0 := by omega
        have hnext : config.maxEasyPositivesPerFamily - (start + 1) = 0 := by omega
        rw [keepEasy, if_neg hroom, hcap, hnext]
        simp only [List.take_zero, List.map_nil, List.append_nil, List.drop_zero,
          List.length_cons]
        exact congrArg _ (by omega)

/-- The second loop over all groups. -/
theorem foldl_groups (config : CurationConfig) (groups : List (String × List (EvalCase × Margin)))
    (state : List ReplayLine × ℕ) :
    groups.foldl
        (fun state group ↦ (sortOn Prod.snd group.2).zipIdx.foldl (keepEasy config) state) state =
      (state.1 ++ (groups.flatMap fun group ↦
          (sortOn Prod.snd group.2).take config.maxEasyPositivesPerFamily).map
          (fun pair ↦ replayLine .historicalReplay pair.1),
        state.2 + (groups.flatMap fun group ↦
          (sortOn Prod.snd group.2).drop config.maxEasyPositivesPerFamily).length) := by
  induction groups generalizing state with
  | nil => simp
  | cons group groups ih =>
      rw [List.foldl_cons, ih, foldl_keepEasy, Nat.sub_zero]
      simp [List.append_assoc, Nat.add_assoc]

/-- Both loops together: the lines of the kept cases, and the number of the others. -/
theorem curateSynthetic_eq (cases : List EvalCase) (config : CurationConfig) :
    curateSynthetic gap maxMargin cases config =
      ((keptCases gap maxMargin config cases).map keptLine,
        (cappedCases gap maxMargin config cases).length) := by
  have hgroups : groupOn (fun pair : EvalCase × Margin ↦ familyKey pair.1)
      ((cases.filter IsEasy).map fun case ↦ (case, marginOf gap maxMargin case)) =
      (groupOn familyKey (cases.filter IsEasy)).map fun group ↦
        (group.1, group.2.map fun case ↦ (case, marginOf gap maxMargin case)) :=
    groupOn_map _ _ _
  have hlines : (keptOfGroups familyKey (marginOf gap maxMargin) config.maxEasyPositivesPerFamily
      (cases.filter IsEasy)).map keptLine =
      (keptOfGroups familyKey (marginOf gap maxMargin) config.maxEasyPositivesPerFamily
        (cases.filter IsEasy)).map (replayLine .historicalReplay) := by
    refine List.map_congr_left fun case hcase ↦ ?_
    have heasy : classifyStratum case = .historicalReplay :=
      of_decide_eq_true (List.mem_filter.mp (mem_of_mem_keptOfGroups hcase)).2
    rw [keptLine, heasy]
  unfold curateSynthetic keptCases cappedCases
  rw [foldl_stratify, foldl_groups, hgroups, List.map_append, hlines]
  simp only [List.flatMap_map, sortOn_map, List.map_flatMap, keptOfGroups, droppedOfGroups,
    List.map_take, List.map_map, List.length_flatMap, List.length_drop, List.length_map,
    Nat.zero_add]
  rfl

section

variable {gap maxMargin} {config : CurationConfig} {cases : List EvalCase}

theorem isEasy_of_mem_keptOfGroups {kept : EvalCase}
    (hkept : kept ∈ keptOfGroups familyKey (marginOf gap maxMargin)
      config.maxEasyPositivesPerFamily (cases.filter IsEasy)) : IsEasy kept :=
  of_decide_eq_true (List.mem_filter.mp (mem_of_mem_keptOfGroups hkept)).2

/-- Only easy positives are capped. -/
theorem isEasy_of_mem_cappedCases {capped : EvalCase}
    (hcapped : capped ∈ cappedCases gap maxMargin config cases) : IsEasy capped :=
  of_decide_eq_true (List.mem_filter.mp (mem_of_mem_droppedOfGroups hcapped)).2

/-- Every case that is not an easy positive is kept, in its order. -/
theorem filter_not_isEasy_keptCases :
    (keptCases gap maxMargin config cases).filter (fun case ↦ ¬ IsEasy case) =
      cases.filter fun case ↦ ¬ IsEasy case := by
  have heasy : (keptOfGroups familyKey (marginOf gap maxMargin) config.maxEasyPositivesPerFamily
      (cases.filter IsEasy)).filter (fun case ↦ ¬ IsEasy case) = [] :=
    List.filter_eq_nil_iff.mpr fun case hcase hnot ↦
      of_decide_eq_true hnot (isEasy_of_mem_keptOfGroups hcase)
  rw [keptCases, List.filter_append, heasy, List.append_nil, List.filter_filter]
  simp only [Bool.and_self]

theorem filter_isEasy_keptCases :
    (keptCases gap maxMargin config cases).filter IsEasy =
      keptOfGroups familyKey (marginOf gap maxMargin) config.maxEasyPositivesPerFamily
        (cases.filter IsEasy) := by
  have hhard : (cases.filter fun case ↦ ¬ IsEasy case).filter IsEasy = [] :=
    List.filter_eq_nil_iff.mpr fun case hcase heasy ↦
      of_decide_eq_true (List.mem_filter.mp hcase).2 (of_decide_eq_true heasy)
  rw [keptCases, List.filter_append, hhard, List.nil_append]
  exact List.filter_eq_self.mpr fun case hcase ↦ decide_eq_true (isEasy_of_mem_keptOfGroups hcase)

theorem easyOf_eq_filter (family : String) (cases : List EvalCase) :
    easyOf family cases =
      (cases.filter IsEasy).filter fun case ↦ familyKey case = family := by
  rw [easyOf, List.filter_filter]
  exact List.filter_congr fun case _ ↦ by rw [Bool.decide_and, Bool.and_comm]

theorem easyOf_keptCases (family : String) :
    easyOf family (keptCases gap maxMargin config cases) =
      (keptOfGroups familyKey (marginOf gap maxMargin) config.maxEasyPositivesPerFamily
        (cases.filter IsEasy)).filter fun case ↦ familyKey case = family := by
  rw [easyOf_eq_filter, filter_isEasy_keptCases]

/-- Kept and capped cases are the cases. -/
theorem keptCases_append_cappedCases_perm :
    (keptCases gap maxMargin config cases ++ cappedCases gap maxMargin config cases).Perm cases := by
  have hsplit : (cases.filter (fun case ↦ ¬ IsEasy case) ++ cases.filter IsEasy).Perm cases := by
    refine List.perm_append_comm.trans ?_
    simpa only [decide_not] using List.filter_append_perm (fun case ↦ decide (IsEasy case)) cases
  rw [keptCases, List.append_assoc]
  exact ((kept_append_dropped_perm _ _ _ _).append_left _).trans hsplit

theorem mem_keptCases_of_isEasy {kept : EvalCase}
    (hkept : kept ∈ keptCases gap maxMargin config cases) (heasy : IsEasy kept) :
    kept ∈ keptOfGroups familyKey (marginOf gap maxMargin) config.maxEasyPositivesPerFamily
      (cases.filter IsEasy) := by
  rw [← filter_isEasy_keptCases, List.mem_filter]
  exact ⟨hkept, decide_eq_true heasy⟩

end

/-- Curation keeps every case that is not an easy positive, and of every family as many easy
positives as the cap allows, those with the smallest margins. The lines and the capped count add up
to the cases, and the order of the cases only decides between equal margins at the cut. -/
theorem curateSynthetic_keeps (cases : List EvalCase) (config : CurationConfig) :
    (curateSynthetic gap maxMargin cases config).1 =
      (keptCases gap maxMargin config cases).map keptLine ∧
    (keptCases gap maxMargin config cases ++ cappedCases gap maxMargin config cases).Perm cases ∧
    (keptCases gap maxMargin config cases).filter (fun case ↦ ¬ IsEasy case) =
      cases.filter (fun case ↦ ¬ IsEasy case) ∧
    (∀ family, (easyOf family (keptCases gap maxMargin config cases)).length =
      min config.maxEasyPositivesPerFamily (easyOf family cases).length) ∧
    (∀ kept ∈ keptCases gap maxMargin config cases,
      ∀ capped ∈ cappedCases gap maxMargin config cases,
        IsEasy kept → familyKey kept = familyKey capped →
          marginOf gap maxMargin kept ≤ marginOf gap maxMargin capped) ∧
    (curateSynthetic gap maxMargin cases config).1.length +
      (curateSynthetic gap maxMargin cases config).2 = cases.length ∧
    ∀ others, cases.Perm others →
      (curateSynthetic gap maxMargin cases config).2 =
        (curateSynthetic gap maxMargin others config).2 ∧
      ((keptCases gap maxMargin config cases).filter fun case ↦ ¬ IsEasy case).Perm
        ((keptCases gap maxMargin config others).filter fun case ↦ ¬ IsEasy case) ∧
      (∀ family,
        (easyOf family (keptCases gap maxMargin config cases)).map (marginOf gap maxMargin) =
          (easyOf family (keptCases gap maxMargin config others)).map (marginOf gap maxMargin)) ∧
      ∀ kept ∈ keptCases gap maxMargin config cases, IsEasy kept →
        ((easyOf (familyKey kept) (keptCases gap maxMargin config cases)).filter fun case ↦
            marginOf gap maxMargin case < marginOf gap maxMargin kept).Perm
          ((easyOf (familyKey kept) (keptCases gap maxMargin config others)).filter fun case ↦
            marginOf gap maxMargin case < marginOf gap maxMargin kept) := by
  have hcurated := curateSynthetic_eq gap maxMargin
  refine ⟨congrArg Prod.fst (hcurated cases config), keptCases_append_cappedCases_perm,
    filter_not_isEasy_keptCases, fun family ↦ ?_, fun kept hkept capped hcapped heasy hfamily ↦ ?_,
    ?_, fun others hperm ↦ ⟨?_, ?_, fun family ↦ ?_, fun kept hkept heasy ↦ ?_⟩⟩
  · rw [easyOf_keptCases, easyOf_eq_filter]
    exact length_filter_keptOfGroups _ family
  · exact key_le_of_mem_keptOfGroups (mem_keptCases_of_isEasy hkept heasy) hcapped hfamily
  · rw [hcurated, List.length_map, ← List.length_append]
    exact keptCases_append_cappedCases_perm.length_eq
  · rw [hcurated, hcurated]
    exact length_droppedOfGroups_of_perm (hperm.filter _)
  · rw [filter_not_isEasy_keptCases, filter_not_isEasy_keptCases]
    exact hperm.filter _
  · rw [easyOf_keptCases, easyOf_keptCases]
    exact map_filter_keptOfGroups_of_perm (hperm.filter _) family
  · have hbelow := filter_lt_keptOfGroups_of_perm (hperm.filter (fun case ↦ decide (IsEasy case)))
      (mem_keptCases_of_isEasy hkept heasy)
    rw [easyOf_keptCases, easyOf_keptCases, List.filter_filter, List.filter_filter]
    simpa only [Bool.decide_and, Bool.and_comm] using hbelow

end

end Deblob.Retrain
