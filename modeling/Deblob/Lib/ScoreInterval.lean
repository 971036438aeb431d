import Mathlib.Algebra.Order.Field.Basic
import Mathlib.Tactic.Linarith
import Mathlib.Tactic.Ring

/-!
# Score intervals

The two bounds of a score interval are the roots of a quadratic in the proportion that is tested. A
proportion is at or below the lower bound, or above the upper one, exactly when it is on that side
of the observed proportion and its squared deviation is as large as the quadratic demands.
-/

namespace Deblob.Lib

variable {F : Type*} [Field F] [LinearOrder F] [IsStrictOrderedRing F]

/-! ## Roots -/

section

variable {a b s x : F}

theorem le_lesserRoot_iff (ha : 0 < a) (hs : 0 ≤ s) :
    x ≤ (b - s) / a ↔ a * x ≤ b ∧ s ^ 2 ≤ (a * x - b) ^ 2 := by
  have hroot : x ≤ (b - s) / a ↔ s ≤ b - a * x := by
    rw [le_div_iff₀ ha, mul_comm x a]
    constructor <;> intro hle <;> linarith
  rw [hroot, ← neg_sq (a * x - b), neg_sub]
  constructor
  · intro hle
    exact ⟨by linarith, pow_le_pow_left₀ hs hle 2⟩
  · rintro ⟨hside, hsquare⟩
    exact le_of_sq_le_sq hsquare (by linarith)

theorem greaterRoot_lt_iff (ha : 0 < a) (hs : 0 ≤ s) :
    (b + s) / a < x ↔ b < a * x ∧ s ^ 2 < (a * x - b) ^ 2 := by
  have hroot : (b + s) / a < x ↔ s < a * x - b := by
    rw [div_lt_iff₀ ha, mul_comm x a]
    constructor <;> intro hlt <;> linarith
  rw [hroot]
  constructor
  · intro hlt
    exact ⟨by linarith, pow_lt_pow_left₀ hlt hs two_ne_zero⟩
  · rintro ⟨hside, hsquare⟩
    exact lt_of_pow_lt_pow_left₀ 2 (by linarith) hsquare

end

/-! ## Deviations of a proportion -/

section

variable {p h s x : F}

/-- The square under the root, in terms of the deviation. -/
theorem sq_sub_sq_eq (hs : s ^ 2 = h * (p * (1 - p)) + h ^ 2 / 4) :
    ((1 + h) * x - (p + h / 2)) ^ 2 - s ^ 2 = (1 + h) * ((x - p) ^ 2 - h * (x * (1 - x))) := by
  rw [hs]
  ring

theorem sq_le_iff (hh : 0 < h) (hs : s ^ 2 = h * (p * (1 - p)) + h ^ 2 / 4) :
    s ^ 2 ≤ ((1 + h) * x - (p + h / 2)) ^ 2 ↔ h * (x * (1 - x)) ≤ (x - p) ^ 2 := by
  rw [← sub_nonneg, sq_sub_sq_eq hs, mul_nonneg_iff_of_pos_left (by linarith), sub_nonneg]

theorem sq_lt_iff (hh : 0 < h) (hs : s ^ 2 = h * (p * (1 - p)) + h ^ 2 / 4) :
    s ^ 2 < ((1 + h) * x - (p + h / 2)) ^ 2 ↔ h * (x * (1 - x)) < (x - p) ^ 2 := by
  rw [← sub_pos, sq_sub_sq_eq hs, mul_pos_iff_of_pos_left (by linarith), sub_pos]

variable (hp : 0 ≤ p) (hp' : p ≤ 1) (hh : 0 < h) (hx : 0 < x) (hx' : x < 1)

include hp hp' hh hx hx'

/-- Where the deviation is large enough, the middle of the interval and the observed proportion are
on the same side. -/
theorem center_le_iff (hlarge : h * (x * (1 - x)) ≤ (x - p) ^ 2) :
    (1 + h) * x ≤ p + h / 2 ↔ x ≤ p := by
  constructor
  · intro hcenter
    by_contra hlt
    rw [not_le] at hlt
    have hdeviation : h * (1 - x) ≤ x - p := by
      have hsquare : h * (1 - x) * x ≤ (x - p) * x := by nlinarith
      exact le_of_mul_le_mul_right hsquare hx
    nlinarith
  · intro hle
    have hdeviation : h * x ≤ p - x := by
      have hsquare : h * x * (1 - x) ≤ (p - x) * (1 - x) := by nlinarith
      exact le_of_mul_le_mul_right hsquare (by linarith)
    nlinarith

/-- A proportion at or below the lower bound. -/
theorem le_lowerScore_iff (hs : 0 ≤ s) (hroot : s ^ 2 = h * (p * (1 - p)) + h ^ 2 / 4) :
    x ≤ (p + h / 2 - s) / (1 + h) ↔ x ≤ p ∧ h * (x * (1 - x)) ≤ (x - p) ^ 2 := by
  rw [le_lesserRoot_iff (by linarith) hs, sq_le_iff hh hroot]
  exact and_congr_left fun hlarge ↦ center_le_iff hp hp' hh hx hx' hlarge

/-- A proportion above the upper bound. -/
theorem upperScore_lt_iff (hs : 0 ≤ s) (hroot : s ^ 2 = h * (p * (1 - p)) + h ^ 2 / 4) :
    (p + h / 2 + s) / (1 + h) < x ↔ p < x ∧ h * (x * (1 - x)) < (x - p) ^ 2 := by
  rw [greaterRoot_lt_iff (by linarith) hs, sq_lt_iff hh hroot]
  refine and_congr_left fun hlarge ↦ ?_
  rw [← not_le, ← not_le, center_le_iff hp hp' hh hx hx' hlarge.le]

end

end Deblob.Lib
