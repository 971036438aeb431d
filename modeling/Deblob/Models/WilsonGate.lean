import Deblob.Lib.ScoreInterval
import Deblob.Models.Gate
import Mathlib.Analysis.Real.Sqrt
import Mathlib.Tactic.FieldSimp

/-!
# The floor of a family slice

A slice is listed when the lower bound of its Wilson interval is below the floor. Over the reals
both bounds are known by their squared deviations, so it can be said which slices are listed without
a root, and for which of them the whole interval is below the floor.
-/

namespace Deblob.Models

open Lib

section

variable {F : Type} [Field F] [LinearOrder F]

def clamp (low high value : F) : F := max low (min high value)

/-- The Wilson score bound, with the square root as a parameter. -/
def wilsonBound (sqrt : F → F) (successes n : ℕ) (z : F) (upper : Bool) : F :=
  if n = 0 then if upper then 1 else 0
  else
    let p := clamp 0 1 ((successes : F) / n)
    let z2 := z * z
    let denom := 1 + z2 / n
    let center := p + z2 / (2 * n)
    let margin := z * sqrt (max (p * (1 - p) / n + z2 / (4 * n * n)) 0)
    clamp 0 1 (if upper then (center + margin) / denom else (center - margin) / denom)

@[simp]
theorem wilsonBound_zero (sqrt : F → F) (successes : ℕ) (z : F) (upper : Bool) :
    wilsonBound sqrt successes 0 z upper = if upper then 1 else 0 :=
  if_pos rfl

/-- The precision of a slice; without cases it is one. -/
def observedPrecision (correct n : ℕ) : F := if n = 0 then 1 else correct / n

end

/-! ## The bounds over the reals -/

section

variable {correct n : ℕ} {z floor : ℝ}

theorem clamp_eq_self {value : ℝ} (hzero : 0 ≤ value) (hone : value ≤ 1) :
    clamp 0 1 value = value := by
  rw [clamp, min_eq_right hone, max_eq_right hzero]

theorem le_clamp_iff {value : ℝ} (hfloor : 0 < floor) (hfloor' : floor < 1) :
    floor ≤ clamp 0 1 value ↔ floor ≤ value := by
  rw [clamp, le_max_iff, le_min_iff, or_iff_right hfloor.not_ge, and_iff_right hfloor'.le]

theorem clamp_lt_iff {value : ℝ} (hfloor : 0 < floor) (hfloor' : floor < 1) :
    clamp 0 1 value < floor ↔ value < floor := by
  rw [← not_le, le_clamp_iff hfloor hfloor', not_le]

variable (hn : 0 < n) (hcorrect : correct ≤ n) (hz : 0 < z)

/-- The margin of the interval. -/
noncomputable def margin (correct n : ℕ) (z : ℝ) : ℝ :=
  z * √(correct / n * (1 - correct / n) / n + z * z / (4 * n * n))

include hz in
theorem margin_nonneg : 0 ≤ margin correct n z := mul_nonneg hz.le (Real.sqrt_nonneg _)

include hn in
/-- The spread of the floor in counts instead of proportions. -/
theorem spread_eq :
    z ^ 2 / n * (floor * (1 - floor)) = n * z ^ 2 * (floor * (1 - floor)) / n ^ 2 := by
  have hne : (n : ℝ) ≠ 0 := by positivity
  field_simp

include hn in
theorem deviation_eq :
    (floor - correct / n) ^ 2 = (correct - n * floor) ^ 2 / (n : ℝ) ^ 2 := by
  have hne : (n : ℝ) ≠ 0 := by positivity
  field_simp
  ring

include hn hcorrect in
theorem proportion_mem : 0 ≤ (correct : ℝ) / n ∧ (correct : ℝ) / n ≤ 1 := by
  have hcast : (correct : ℝ) ≤ n := Nat.cast_le.mpr hcorrect
  exact ⟨by positivity, (div_le_one (by positivity)).mpr hcast⟩

include hn hcorrect

theorem radicand_nonneg :
    0 ≤ (correct : ℝ) / n * (1 - correct / n) / n + z * z / (4 * n * n) := by
  rcases proportion_mem hn hcorrect with ⟨hzero, hone⟩
  have hproduct := mul_nonneg hzero (sub_nonneg.mpr hone)
  have hsquare := mul_self_nonneg z
  positivity

theorem sq_margin :
    margin correct n z ^ 2 =
      z ^ 2 / n * (correct / n * (1 - correct / n)) + (z ^ 2 / n) ^ 2 / 4 := by
  rw [margin, mul_pow, Real.sq_sqrt (radicand_nonneg hn hcorrect)]
  have hne : (n : ℝ) ≠ 0 := by positivity
  field_simp

theorem wilsonBound_eq (upper : Bool) :
    wilsonBound Real.sqrt correct n z upper = clamp 0 1
      (if upper then (correct / n + z ^ 2 / n / 2 + margin correct n z) / (1 + z ^ 2 / n)
        else (correct / n + z ^ 2 / n / 2 - margin correct n z) / (1 + z ^ 2 / n)) := by
  rcases proportion_mem hn hcorrect with ⟨hzero, hone⟩
  have hcenter : z * z / (2 * (n : ℝ)) = z ^ 2 / n / 2 := by
    rw [← sq, mul_comm, div_div]
  have hmargin : z * √(max (correct / n * (1 - correct / n) / n + z * z / (4 * n * n)) 0) =
      margin correct n z := by
    rw [max_eq_left (radicand_nonneg hn hcorrect), margin]
  simp only [wilsonBound, if_neg hn.ne', clamp_eq_self hzero hone]
  rw [hmargin, hcenter, ← sq]

variable (hfloor : 0 < floor) (hfloor' : floor < 1)

include hz hfloor hfloor'

/-- The lower bound reaches the floor. -/
theorem le_wilsonBound_iff :
    floor ≤ wilsonBound Real.sqrt correct n z false ↔
      n * floor ≤ correct ∧ n * z ^ 2 * (floor * (1 - floor)) ≤ (correct - n * floor) ^ 2 := by
  rcases proportion_mem hn hcorrect with ⟨hzero, hone⟩
  have hcount : (0 : ℝ) < n := Nat.cast_pos.mpr hn
  have hratio : 0 < z ^ 2 / (n : ℝ) := by positivity
  rw [wilsonBound_eq hn hcorrect, le_clamp_iff hfloor hfloor', if_neg Bool.false_ne_true,
    le_lowerScore_iff hzero hone hratio hfloor hfloor' (margin_nonneg hz) (sq_margin hn hcorrect),
    spread_eq hn, deviation_eq hn, div_le_div_iff_of_pos_right (by positivity),
    le_div_iff₀' hcount]

/-- The upper bound is below the floor. -/
theorem wilsonBound_lt_iff :
    wilsonBound Real.sqrt correct n z true < floor ↔
      correct < n * floor ∧ n * z ^ 2 * (floor * (1 - floor)) < (correct - n * floor) ^ 2 := by
  rcases proportion_mem hn hcorrect with ⟨hzero, hone⟩
  have hcount : (0 : ℝ) < n := Nat.cast_pos.mpr hn
  have hratio : 0 < z ^ 2 / (n : ℝ) := by positivity
  rw [wilsonBound_eq hn hcorrect, clamp_lt_iff hfloor hfloor', if_pos rfl,
    upperScore_lt_iff hzero hone hratio hfloor hfloor' (margin_nonneg hz) (sq_margin hn hcorrect),
    spread_eq hn, deviation_eq hn, div_lt_div_iff_of_pos_right (by positivity),
    div_lt_iff₀' hcount]

end

/-! ## What the gate lists -/

/-- The gate lists a slice for its precision. -/
def ListsSlice (evidence : GateEvidence ℝ) (gate : GateConfig ℝ) (slice : FamilySlice ℝ) : Prop :=
  ∃ lower floor, GateReason.familyPrecision slice lower floor ∈
    gateReasons (wilsonBound Real.sqrt) evidence gate

theorem familyPrecision_mem_iff {bound : WilsonBound ℝ} {evidence : GateEvidence ℝ}
    {gate : GateConfig ℝ} {slice : FamilySlice ℝ} {lower floor : ℝ} :
    .familyPrecision slice lower floor ∈ gateReasons bound evidence gate ↔
      slice ∈ evidence.perFamily ∧ gate.perFamilyMinN ≤ slice.n ∧
        lower = bound slice.correct slice.n gate.confidenceZ false ∧
        floor = gate.perFamilyPrecisionFloor ∧ lower < floor := by
  have hothers : .familyPrecision slice lower floor ∈ gateReasons bound evidence gate ↔
      .familyPrecision slice lower floor ∈ evidence.perFamily.flatMap (sliceReasons bound gate) := by
    cases hupper : evidence.falseMergeUpperCi <;>
      cases hmeasured : evidence.aggregate.retrievalRecallAt5 <;>
      simp [gateReasons, hupper, hmeasured]
  rw [hothers, List.mem_flatMap]
  constructor
  · rintro ⟨other, hother, hreason⟩
    unfold sliceReasons at hreason
    split_ifs at hreason with hsmall
    · cases hreason
    · dsimp only at hreason
      split_ifs at hreason with hlower
      · cases List.mem_singleton.mp hreason
        exact ⟨hother, not_lt.mp hsmall, rfl, rfl, hlower⟩
      · cases hreason
  · rintro ⟨hslice, hcases, rfl, rfl, hlower⟩
    refine ⟨slice, hslice, ?_⟩
    simp [sliceReasons, not_lt.mpr hcases, hlower]

/-- A slice of the evidence is listed when it has enough cases and its lower bound is below the
floor. -/
theorem listsSlice_iff {evidence : GateEvidence ℝ} {slice : FamilySlice ℝ}
    (hslice : slice ∈ evidence.perFamily) (gate : GateConfig ℝ) :
    ListsSlice evidence gate slice ↔ gate.perFamilyMinN ≤ slice.n ∧
      wilsonBound Real.sqrt slice.correct slice.n gate.confidenceZ false <
        gate.perFamilyPrecisionFloor := by
  constructor
  · rintro ⟨lower, floor, hreason⟩
    rcases familyPrecision_mem_iff.mp hreason with ⟨-, hcases, rfl, rfl, hlower⟩
    exact ⟨hcases, hlower⟩
  · rintro ⟨hcases, hlower⟩
    exact ⟨_, _, familyPrecision_mem_iff.mpr ⟨hslice, hcases, rfl, rfl, hlower⟩⟩

/-- A listed slice is confidently bad, a slice without errors is not listed, and more correct cases
never make a slice listed. -/
structure ListsOnlyBad (evidence : GateEvidence ℝ) (gate : GateConfig ℝ) (slice : FamilySlice ℝ) :
    Prop where
  bad : ListsSlice evidence gate slice →
    observedPrecision slice.correct slice.n < gate.perFamilyPrecisionFloor ∧
      wilsonBound Real.sqrt slice.correct slice.n gate.confidenceZ true <
        gate.perFamilyPrecisionFloor
  perfect : slice.correct = slice.n → ¬ ListsSlice evidence gate slice
  monotone : ∀ (other : GateEvidence ℝ) (better : FamilySlice ℝ), better ∈ other.perFamily →
    better.n = slice.n → slice.correct ≤ better.correct → better.correct ≤ better.n →
    ¬ ListsSlice evidence gate slice → ¬ ListsSlice other gate better

/-- The slice is exempt, or the floor is outside its interval: at or below it when the observed
precision reaches the floor, and above it otherwise. -/
def Decided (gate : GateConfig ℝ) (slice : FamilySlice ℝ) : Prop :=
  slice.n < gate.perFamilyMinN ∨ 0 < slice.n ∧
    ((slice.n * gate.perFamilyPrecisionFloor ≤ slice.correct ∧
      slice.n * gate.confidenceZ ^ 2 *
        (gate.perFamilyPrecisionFloor * (1 - gate.perFamilyPrecisionFloor)) ≤
        (slice.correct - slice.n * gate.perFamilyPrecisionFloor) ^ 2) ∨
    (slice.correct < slice.n * gate.perFamilyPrecisionFloor ∧
      slice.n * gate.confidenceZ ^ 2 *
        (gate.perFamilyPrecisionFloor * (1 - gate.perFamilyPrecisionFloor)) <
        (slice.correct - slice.n * gate.perFamilyPrecisionFloor) ^ 2))

section

variable {gate : GateConfig ℝ} (hfloor : 0 < gate.perFamilyPrecisionFloor)
  (hfloor' : gate.perFamilyPrecisionFloor < 1) (hz : 0 < gate.confidenceZ)

include hfloor hfloor' hz

/-- Of two slices with as many cases the one with more correct cases is listed only if the other
one is. -/
theorem listsSlice_mono {evidence other : GateEvidence ℝ} {slice better : FamilySlice ℝ}
    (hslice : slice ∈ evidence.perFamily) (hbetter : better ∈ other.perFamily)
    (hn : better.n = slice.n) (hmore : slice.correct ≤ better.correct)
    (hcorrect : better.correct ≤ better.n) (hlists : ListsSlice other gate better) :
    ListsSlice evidence gate slice := by
  rw [listsSlice_iff hbetter, hn, ← not_le] at hlists
  rw [listsSlice_iff hslice, ← not_le]
  refine ⟨hlists.1, fun hreaches ↦ hlists.2 ?_⟩
  rcases Nat.eq_zero_or_pos slice.n with hzero | hpos
  · rw [hzero, wilsonBound_zero, if_neg Bool.false_ne_true] at hreaches
    exact absurd hreaches (not_le.mpr hfloor)
  · rw [le_wilsonBound_iff hpos (hmore.trans (hcorrect.trans_eq hn)) hz hfloor hfloor'] at hreaches
    rw [le_wilsonBound_iff hpos (hcorrect.trans_eq hn) hz hfloor hfloor']
    have hcast : (slice.correct : ℝ) ≤ better.correct := Nat.cast_le.mpr hmore
    refine ⟨hreaches.1.trans hcast, hreaches.2.trans ?_⟩
    exact pow_le_pow_left₀ (sub_nonneg.mpr hreaches.1) (sub_le_sub_right hcast _) 2

/-- A slice without errors is listed when its cases are too few for the confidence. -/
theorem listsSlice_perfect_iff {evidence : GateEvidence ℝ} {slice : FamilySlice ℝ}
    (hslice : slice ∈ evidence.perFamily) (hperfect : slice.correct = slice.n) :
    ListsSlice evidence gate slice ↔ gate.perFamilyMinN ≤ slice.n ∧
      slice.n * (1 - gate.perFamilyPrecisionFloor) <
        gate.confidenceZ ^ 2 * gate.perFamilyPrecisionFloor := by
  have hrest : 0 < 1 - gate.perFamilyPrecisionFloor := sub_pos.mpr hfloor'
  have hspread : 0 < gate.confidenceZ ^ 2 * gate.perFamilyPrecisionFloor := by positivity
  rw [listsSlice_iff hslice, hperfect]
  refine and_congr_right fun _ ↦ ?_
  rcases Nat.eq_zero_or_pos slice.n with hzero | hpos
  · simp [hzero, hfloor, hspread]
  · have hcount : (0 : ℝ) < slice.n := Nat.cast_pos.mpr hpos
    rw [← not_le, ← not_le, not_iff_not, le_wilsonBound_iff hpos le_rfl hz hfloor hfloor',
      and_iff_right (mul_le_of_le_one_right hcount.le hfloor'.le)]
    have hleft : slice.n * gate.confidenceZ ^ 2 *
        (gate.perFamilyPrecisionFloor * (1 - gate.perFamilyPrecisionFloor)) =
        slice.n * (1 - gate.perFamilyPrecisionFloor) *
          (gate.confidenceZ ^ 2 * gate.perFamilyPrecisionFloor) := by ring
    have hright : ((slice.n : ℝ) - slice.n * gate.perFamilyPrecisionFloor) ^ 2 =
        slice.n * (1 - gate.perFamilyPrecisionFloor) *
          (slice.n * (1 - gate.perFamilyPrecisionFloor)) := by ring
    rw [hleft, hright, mul_le_mul_iff_right₀ (mul_pos hcount hrest)]

/-- The gate lists only what is confidently bad exactly when the slice is exempt or the floor is
outside its interval. -/
theorem listsOnlyBad_iff {evidence : GateEvidence ℝ} {slice : FamilySlice ℝ}
    (hslice : slice ∈ evidence.perFamily) (hcorrect : slice.correct ≤ slice.n) :
    ListsOnlyBad evidence gate slice ↔ Decided gate slice := by
  have hlists := listsSlice_iff hslice gate
  constructor
  · intro honly
    by_cases hexempt : slice.n < gate.perFamilyMinN
    · exact .inl hexempt
    have hcases := not_lt.mp hexempt
    have hbad (hlower : wilsonBound Real.sqrt slice.correct slice.n gate.confidenceZ false <
        gate.perFamilyPrecisionFloor) := honly.bad (hlists.mpr ⟨hcases, hlower⟩)
    rcases Nat.eq_zero_or_pos slice.n with hzero | hpos
    · have habsurd := (hbad (by rwa [hzero, wilsonBound_zero, if_neg Bool.false_ne_true])).2
      rw [hzero, wilsonBound_zero, if_pos rfl] at habsurd
      exact absurd habsurd hfloor'.not_gt
    · rw [← not_le, le_wilsonBound_iff hpos hcorrect hz hfloor hfloor',
        wilsonBound_lt_iff hpos hcorrect hz hfloor hfloor'] at hbad
      refine .inr ⟨hpos, or_iff_not_imp_left.mpr fun hnot ↦ (hbad hnot).2⟩
  · intro hdecided
    have hlow (hlisted : ListsSlice evidence gate slice) : 0 < slice.n ∧
        slice.correct < slice.n * gate.perFamilyPrecisionFloor ∧
        wilsonBound Real.sqrt slice.correct slice.n gate.confidenceZ true <
          gate.perFamilyPrecisionFloor := by
      rcases hlists.mp hlisted with ⟨hcases, hlower⟩
      rcases hdecided with hexempt | ⟨hpos, hreaches | hbelow⟩
      · exact absurd hexempt (not_lt.mpr hcases)
      · rw [← le_wilsonBound_iff hpos hcorrect hz hfloor hfloor'] at hreaches
        exact absurd hlower (not_lt.mpr hreaches)
      · exact ⟨hpos, hbelow.1, (wilsonBound_lt_iff hpos hcorrect hz hfloor hfloor').mpr hbelow⟩
    refine ⟨?_, ?_, ?_⟩
    · intro hlisted
      rcases hlow hlisted with ⟨hpos, hbelow, hupper⟩
      have hcount : (0 : ℝ) < slice.n := Nat.cast_pos.mpr hpos
      rw [observedPrecision, if_neg hpos.ne', div_lt_iff₀' hcount]
      exact ⟨hbelow, hupper⟩
    · intro hperfect hlisted
      rcases hlow hlisted with ⟨hpos, hbelow, -⟩
      rw [hperfect] at hbelow
      exact absurd hbelow (not_lt.mpr (mul_le_of_le_one_right (Nat.cast_nonneg _) hfloor'.le))
    · intro other better hbetter hn hmore hle hnot hlistsBetter
      exact hnot (listsSlice_mono hfloor hfloor' hz hslice hbetter hn hmore hle hlistsBetter)

end

noncomputable def z95 : ℝ := 1.959963985

/-- The thresholds that are deployed by default. -/
noncomputable def defaultGate : GateConfig ℝ where
  minTestN := 200
  maxWrongValidRate := 0.005
  minAcceptedPrecision := 0.995
  perFamilyMinN := 20
  perFamilyPrecisionFloor := 0.99
  minRetrievalRecallAt5 := 0.95
  nonInferiorityMargin := 0.01
  retrievalNonInferiorityMargin := 0.02
  maxFalseMergeUpperCi := 0.01
  confidenceZ := z95
  requireExplicitApproval := true
  minShadowHoldMs := 0

/-- Evidence with one slice of fifty cases. -/
noncomputable def fiftyCases (correct : ℕ) : GateEvidence ℝ where
  aggregate := ⟨1000, 0, 0, 0, 1, 1, none⟩
  perFamily := [⟨⟨"fam"⟩, 50, correct, correct / 50⟩]
  falseMergeUpperCi := none

/-- Fifty correct cases of fifty are listed. -/
theorem fiftyCorrect_listed :
    ¬ ListsOnlyBad (fiftyCases 50) defaultGate ⟨⟨"fam"⟩, 50, 50, (50 : ℕ) / 50⟩ := by
  intro honly
  refine honly.perfect rfl ?_
  rw [listsSlice_perfect_iff (by norm_num [defaultGate, z95]) (by norm_num [defaultGate, z95])
    (by norm_num [defaultGate, z95]) (List.mem_singleton_self _) rfl]
  norm_num [defaultGate, z95]

/-- Thirty correct cases of fifty are confidently bad. -/
theorem listsOnlyBad_thirty :
    ListsOnlyBad (fiftyCases 30) defaultGate ⟨⟨"fam"⟩, 50, 30, (30 : ℕ) / 50⟩ := by
  rw [listsOnlyBad_iff (by norm_num [defaultGate, z95]) (by norm_num [defaultGate, z95])
    (by norm_num [defaultGate, z95]) (List.mem_singleton_self _) (by decide), Decided]
  norm_num [defaultGate, z95]

end Deblob.Models
