import Deblob.Retrieval.Distance
import Mathlib.Algebra.Order.BigOperators.Group.Finset
import Mathlib.Tactic.Linarith
import Mathlib.Tactic.Positivity

/-!
# Features without distance

No component of a distance is negative and every weight is positive, so a total of zero leaves
nothing to any component. Then the two sides have the same features, whose paths are a sorted map.
-/

namespace Deblob.Retrieval

open Lib

attribute [ext] StructuralFeatures

/-! ## The measures -/

theorem jaccardDistance_nonneg (left right : Finset String) : 0 ≤ jaccardDistance left right := by
  unfold jaccardDistance
  split_ifs with hempty
  · exact le_rfl
  · have hcard : ((left ∩ right).card : ℚ) ≤ (left ∪ right).card := by
      exact_mod_cast Finset.card_le_card Finset.inter_subset_union
    exact sub_nonneg.mpr (div_le_one_of_le₀ hcard (Nat.cast_nonneg _))

/-- Sets that share everything they have are equal. -/
theorem jaccardDistance_eq_zero {left right : Finset String} :
    jaccardDistance left right = 0 ↔ left = right := by
  constructor
  · intro hzero
    unfold jaccardDistance at hzero
    split_ifs at hzero with hempty
    · exact hempty.1.trans hempty.2.symm
    · have hunion : ((left ∪ right).card : ℚ) ≠ 0 := by
        rwa [Nat.cast_ne_zero, Finset.card_ne_zero, Finset.nonempty_iff_ne_empty, ne_eq,
          Finset.union_eq_empty]
      have hcard : ((left ∩ right).card : ℚ) = (left ∪ right).card :=
        (div_eq_one_iff_eq hunion).mp (sub_eq_zero.mp hzero).symm
      have hinter : left ∩ right = left ∪ right :=
        Finset.eq_of_subset_of_card_le Finset.inter_subset_union (by exact_mod_cast hcard.ge)
      exact inf_eq_sup.mp hinter
  · rintro rfl
    exact jaccardDistance_self left

theorem depthDistance_nonneg (left right : ℕ) : 0 ≤ depthDistance left right := by
  unfold depthDistance
  positivity

theorem depthDistance_eq_zero {left right : ℕ} : depthDistance left right = 0 ↔ left = right := by
  constructor
  · intro hzero
    have hpos : (0 : ℚ) < ((max (max left right) 1 : ℕ) : ℚ) := by
      exact_mod_cast Nat.lt_of_lt_of_le Nat.zero_lt_one (le_max_right _ _)
    have habs : |(left : ℚ) - right| = 0 := by
      unfold depthDistance at hzero
      exact (div_eq_zero_iff.mp hzero).resolve_right hpos.ne'
    exact_mod_cast sub_eq_zero.mp (abs_eq_zero.mp habs)
  · rintro rfl
    exact depthDistance_self left

theorem pathDistance_nonneg (left right : StructuralFeatures) (path : String) :
    0 ≤ pathDistance left right path := by
  unfold pathDistance
  split
  · exact jaccardDistance_nonneg _ _
  · exact zero_le_one

theorem pathDistance_eq_zero {left right : StructuralFeatures} {path : String}
    (hzero : pathDistance left right path = 0) :
    getEntry left.paths path = getEntry right.paths path := by
  unfold pathDistance at hzero
  split at hzero
  · next leftTypes rightTypes hleft hright =>
    rw [hleft, hright, jaccardDistance_eq_zero.mp hzero]
  · exact absurd hzero one_ne_zero

theorem getEntry_eq_none {paths : List (String × Finset String)} {path : String}
    (hpath : path ∉ paths.map Prod.fst) : getEntry paths path = none := by
  apply List.lookup_eq_none_iff.mpr
  intro entry hentry
  have hne : path ≠ entry.1 := fun heq ↦ hpath (heq ▸ List.mem_map_of_mem hentry)
  simpa using hne

theorem fieldPathTypeDistance_nonneg (left right : StructuralFeatures) :
    0 ≤ fieldPathTypeDistance left right := by
  unfold fieldPathTypeDistance
  dsimp only
  split_ifs
  · exact le_rfl
  · exact div_nonneg (Finset.sum_nonneg fun path _ ↦ pathDistance_nonneg left right path)
      (Nat.cast_nonneg _)

/-- Without distance both sides have the same types at each path. -/
theorem fieldPathTypeDistance_eq_zero {left right : StructuralFeatures}
    (hzero : fieldPathTypeDistance left right = 0) (path : String) :
    getEntry left.paths path = getEntry right.paths path := by
  unfold fieldPathTypeDistance at hzero
  dsimp only at hzero
  by_cases hpath : path ∈ (left.paths.map Prod.fst ++ right.paths.map Prod.fst).toFinset
  · have hne : (left.paths.map Prod.fst ++ right.paths.map Prod.fst).toFinset ≠ ∅ :=
      Finset.ne_empty_of_mem hpath
    have hcard : ((left.paths.map Prod.fst ++ right.paths.map Prod.fst).toFinset.card : ℚ) ≠ 0 := by
      exact_mod_cast (Finset.card_ne_zero_of_mem hpath)
    rw [if_neg hne] at hzero
    have hsum := (div_eq_zero_iff.mp hzero).resolve_right hcard
    have hterms := (Finset.sum_eq_zero_iff_of_nonneg fun other _ ↦
      pathDistance_nonneg left right other).mp hsum
    exact pathDistance_eq_zero (hterms path hpath)
  · rw [List.mem_toFinset, List.mem_append, not_or] at hpath
    rw [getEntry_eq_none hpath.1, getEntry_eq_none hpath.2]

/-! ## The total -/

/-- The features of two sides have no distance exactly if they are the same. -/
theorem total_computeDistance_eq_zero {left right : StructuralFeatures}
    (hleft : SortedKeys left.paths) (hright : SortedKeys right.paths) :
    (computeDistance left right).total = 0 ↔ left = right := by
  constructor
  · intro htotal
    unfold computeDistance DistanceComponents.total nullabilityDistance arrayMapShapeDistance
      at htotal
    dsimp only at htotal
    have hpathType := fieldPathTypeDistance_nonneg left right
    have hnames := jaccardDistance_nonneg left.nameTokens right.nameTokens
    have hpresence := jaccardDistance_nonneg left.required right.required
    have hdepth := depthDistance_nonneg left.depth right.depth
    have hnullable := jaccardDistance_nonneg left.nullable right.nullable
    have hunion := jaccardDistance_nonneg (typeUnion left) (typeUnion right)
    have harrays := jaccardDistance_nonneg left.arrayPaths right.arrayPaths
    have hobjects := jaccardDistance_nonneg left.objectPaths right.objectPaths
    have hpaths : left.paths = right.paths :=
      hleft.ext hright (fieldPathTypeDistance_eq_zero (by linarith))
    have hnames : left.nameTokens = right.nameTokens := jaccardDistance_eq_zero.mp (by linarith)
    have hpresence : left.required = right.required := jaccardDistance_eq_zero.mp (by linarith)
    have hdepth : left.depth = right.depth := depthDistance_eq_zero.mp (by linarith)
    have hnullable : left.nullable = right.nullable := jaccardDistance_eq_zero.mp (by linarith)
    have harrays : left.arrayPaths = right.arrayPaths := jaccardDistance_eq_zero.mp (by linarith)
    have hobjects : left.objectPaths = right.objectPaths :=
      jaccardDistance_eq_zero.mp (by linarith)
    exact StructuralFeatures.ext hpaths hpresence hnullable harrays hobjects hnames hdepth
  · rintro rfl
    exact total_computeDistance_self left

end Deblob.Retrieval
