import Deblob.Semantic.Features
import Mathlib.Algebra.Order.BigOperators.Group.Finset
import Mathlib.Data.Finset.Sort

/-!
# Weighted similarity in machine arithmetic

The similarity of two signatures is summed up feature by feature in 64 bits, and every operation is
checked. The loop fails exactly if the exact denominator does not fit. The exact score is symmetric,
at most one, and one exactly for signatures that agree on all features of positive weight.
-/

namespace Deblob.Semantic.Signature

open Core Lib

/-- What the extraction guarantees of a signature: an order, known classes and capped counts. -/
structure SemanticSignature.WellFormed (signature : SemanticSignature) : Prop where
  sorted : SortedKeys signature.features
  tags : ∀ key ∈ signature.featureKeys, (tagOf key).isSome
  counts : ∀ entry ∈ signature.features, 0 < entry.2 ∧ entry.2 ≤ maxFeatureCount

/-- The result of a checked operation on 64-bit naturals. -/
def checkedU64 (number : ℕ) : Option ℕ := if number < 2 ^ 64 then some number else none

/-- One round of the loop; an empty feature or an unknown class ends it, as an overflow does. -/
def addFeature (a b : SemanticSignature) (idfMult : Bytes → ℕ) (score : Score) (key : Bytes) :
    Option Score := do
  let tag ← tagOf key
  let weight ← checkedU64 (tag.weight * idfMult key)
  let shared ← checkedU64 (weight * min (a.count key) (b.count key))
  let numerator ← checkedU64 (score.numerator + shared)
  let either ← checkedU64 (weight * max (a.count key) (b.count key))
  let denominator ← checkedU64 (score.denominator + either)
  return ⟨numerator, denominator⟩

/-- The loop over the keys of both signatures in their order. -/
def similarityWeightedU64 (a b : SemanticSignature) (idfMult : Bytes → ℕ) : Option Score :=
  (unionKeys a b).sort.foldlM (addFeature a b idfMult) ⟨0, 0⟩

/-! ## Extracted signatures -/

theorem wellFormed_semanticSignature (metadata : SemanticMetadata) :
    (semanticSignature metadata).WellFormed where
  sorted := sortedKeys_semanticSignature metadata
  tags := fun key hkey ↦ by
    rw [mem_featureKeys, occurrences_eq] at hkey
    rcases List.mem_map.mp hkey with ⟨feature, -, rfl⟩
    rw [tagOf_encode]
    rfl
  counts := counts_foldl_bump _

section

variable {signature a b : SemanticSignature}

theorem SemanticSignature.WellFormed.count_le (hformed : signature.WellFormed) (key : Bytes) :
    signature.count key ≤ maxFeatureCount := by
  unfold SemanticSignature.count
  cases hentry : getEntry signature.features key with
  | none => exact Nat.zero_le _
  | some count => exact (hformed.counts _ (mem_of_getEntry hentry)).2

/-- The features of a signature are those it counts. -/
theorem SemanticSignature.WellFormed.count_pos_iff (hformed : signature.WellFormed) {key : Bytes} :
    0 < signature.count key ↔ key ∈ signature.featureKeys := by
  constructor
  · exact mem_featureKeys_of_count
  · intro hkey
    rcases List.mem_map.mp hkey with ⟨entry, hentry, rfl⟩
    have hcount : getEntry signature.features entry.1 = some entry.2 :=
      hformed.sorted.mem_iff.mp hentry
    rw [SemanticSignature.count, hcount, Option.getD_some]
    exact (hformed.counts entry hentry).1

theorem mem_unionKeys_iff (ha : a.WellFormed) (hb : b.WellFormed) {key : Bytes} :
    key ∈ unionKeys a b ↔ 0 < max (a.count key) (b.count key) := by
  rw [unionKeys, Finset.mem_union, List.mem_toFinset, List.mem_toFinset, lt_max_iff,
    ha.count_pos_iff, hb.count_pos_iff]

/-! ## The exact score -/

variable (idfMult : Bytes → ℕ)

theorem similarityWeighted_comm :
    similarityWeighted a b idfMult = similarityWeighted b a idfMult := by
  have hkeys : unionKeys a b = unionKeys b a := Finset.union_comm _ _
  unfold similarityWeighted
  simp only [hkeys, min_comm, max_comm]

theorem numerator_le_denominator :
    (similarityWeighted a b idfMult).numerator ≤ (similarityWeighted a b idfMult).denominator := by
  unfold similarityWeighted
  dsimp only
  exact Finset.sum_le_sum fun _ _ ↦ Nat.mul_le_mul_left _ min_le_max

/-- The signatures count every feature of positive weight equally often. -/
def AgreeWeighted (a b : SemanticSignature) (idfMult : Bytes → ℕ) : Prop :=
  ∀ key, 0 < classWeight key * idfMult key → a.count key = b.count key

theorem numerator_eq_denominator_iff (ha : a.WellFormed) (hb : b.WellFormed) :
    (similarityWeighted a b idfMult).numerator = (similarityWeighted a b idfMult).denominator ↔
      AgreeWeighted a b idfMult := by
  have hterm (key : Bytes) : classWeight key * idfMult key * min (a.count key) (b.count key) =
      classWeight key * idfMult key * max (a.count key) (b.count key) ↔
        (0 < classWeight key * idfMult key → a.count key = b.count key) := by
    rcases Nat.eq_zero_or_pos (classWeight key * idfMult key) with hzero | hpos
    · simp [hzero]
    · rw [Nat.mul_right_inj hpos.ne', inf_eq_sup]
      exact ⟨fun heq _ ↦ heq, fun heq ↦ heq hpos⟩
  unfold similarityWeighted
  rw [Finset.sum_eq_sum_iff_of_le fun _ _ ↦ Nat.mul_le_mul_left _ min_le_max]
  constructor
  · intro hall key hpos
    by_cases hkey : key ∈ unionKeys a b
    · exact (hterm key).mp (hall key hkey) hpos
    · rw [mem_unionKeys_iff ha hb] at hkey
      omega
  · exact fun hagree key _ ↦ (hterm key).mpr (hagree key)

theorem denominator_pos_iff (ha : a.WellFormed) (hb : b.WellFormed) :
    0 < (similarityWeighted a b idfMult).denominator ↔
      ∃ key ∈ unionKeys a b, 0 < classWeight key * idfMult key := by
  unfold similarityWeighted
  rw [Finset.sum_pos_iff]
  constructor
  · rintro ⟨key, hkey, hpos⟩
    exact ⟨key, hkey, Nat.pos_of_mul_pos_right hpos⟩
  · rintro ⟨key, hkey, hpos⟩
    exact ⟨key, hkey, Nat.mul_pos hpos ((mem_unionKeys_iff ha hb).mp hkey)⟩

/-! ## The loop -/

theorem weight_le (tag : FeatureTag) : tag.weight ≤ 24 := by
  cases tag <;> decide

theorem checkedU64_of_lt {number : ℕ} (hlt : number < 2 ^ 64) : checkedU64 number = some number :=
  if_pos hlt

/-- The multiplied weight of a class is small, and of a feature as well. -/
theorem weight_mul_count_le {tag : FeatureTag} {idf count : ℕ} (hidf : idf ≤ idfMax)
    (hcount : count ≤ maxFeatureCount) : tag.weight * idf * count ≤ 1536 :=
  calc tag.weight * idf * count ≤ 24 * 16 * 4 :=
        Nat.mul_le_mul (Nat.mul_le_mul (weight_le tag) hidf) hcount
    _ = 1536 := rfl

variable {idfMult}

/-- A round adds what the feature weighs, and fails exactly if the denominator does not fit. -/
theorem addFeature_eq (ha : a.WellFormed) (hb : b.WellFormed) {key : Bytes} {score : Score}
    (hidf : idfMult key ≤ idfMax) (hkey : key ∈ unionKeys a b)
    (hscore : score.numerator ≤ score.denominator) :
    addFeature a b idfMult score key =
      (checkedU64 (score.denominator +
        classWeight key * idfMult key * max (a.count key) (b.count key))).map fun denominator ↦
          ⟨score.numerator + classWeight key * idfMult key * min (a.count key) (b.count key),
            denominator⟩ := by
  have htag : (tagOf key).isSome := by
    rcases Finset.mem_union.mp hkey with hkey | hkey
    · exact ha.tags key (List.mem_toFinset.mp hkey)
    · exact hb.tags key (List.mem_toFinset.mp hkey)
  rcases Option.isSome_iff_exists.mp htag with ⟨tag, htag⟩
  have hclass : classWeight key = tag.weight := by
    rw [classWeight, htag]
    rfl
  have hmin : min (a.count key) (b.count key) ≤ max (a.count key) (b.count key) := min_le_max
  have hmax : max (a.count key) (b.count key) ≤ maxFeatureCount :=
    max_le (ha.count_le key) (hb.count_le key)
  have hone : tag.weight * idfMult key ≤ 1536 := by
    have hle : tag.weight * idfMult key * 1 ≤ 1536 := weight_mul_count_le hidf (by decide)
    rwa [Nat.mul_one] at hle
  have heither : tag.weight * idfMult key * max (a.count key) (b.count key) ≤ 1536 :=
    weight_mul_count_le hidf hmax
  have hshared : tag.weight * idfMult key * min (a.count key) (b.count key) ≤
      tag.weight * idfMult key * max (a.count key) (b.count key) :=
    Nat.mul_le_mul_left _ hmin
  unfold addFeature
  rw [htag, hclass]
  simp only [Option.bind_eq_bind, Option.bind_some]
  rw [checkedU64_of_lt (show tag.weight * idfMult key < 2 ^ 64 by omega), Option.bind_some,
    checkedU64_of_lt (hshared.trans_lt (show _ < 2 ^ 64 by omega)), Option.bind_some,
    checkedU64_of_lt (heither.trans_lt (show 1536 < 2 ^ 64 by norm_num))]
  simp only [Option.bind_some]
  by_cases hfits : score.denominator +
      tag.weight * idfMult key * max (a.count key) (b.count key) < 2 ^ 64
  · rw [checkedU64_of_lt hfits, checkedU64_of_lt (lt_of_le_of_lt (add_le_add hscore hshared) hfits)]
    rfl
  · have hnone : checkedU64 (score.denominator +
        tag.weight * idfMult key * max (a.count key) (b.count key)) = none := if_neg hfits
    rw [hnone]
    cases checkedU64 (score.numerator + _) <;> rfl

/-- The loop adds up exact sums, and fails exactly if the denominator does not fit in the end. -/
theorem foldlM_addFeature (ha : a.WellFormed) (hb : b.WellFormed) {keys : List Bytes}
    (hidf : ∀ key, idfMult key ≤ idfMax) (hkeys : ∀ key ∈ keys, key ∈ unionKeys a b)
    {score : Score} (hscore : score.numerator ≤ score.denominator)
    (hfits : score.denominator < 2 ^ 64) :
    keys.foldlM (addFeature a b idfMult) score =
      (checkedU64 (score.denominator + (keys.map fun key ↦
        classWeight key * idfMult key * max (a.count key) (b.count key)).sum)).map
          fun denominator ↦ ⟨score.numerator + (keys.map fun key ↦
            classWeight key * idfMult key * min (a.count key) (b.count key)).sum, denominator⟩ := by
  induction keys generalizing score with
  | nil =>
      simp only [List.map_nil, List.sum_nil, Nat.add_zero]
      rw [checkedU64_of_lt hfits]
      rfl
  | cons key keys ih =>
      rw [List.forall_mem_cons] at hkeys
      rw [List.foldlM_cons, addFeature_eq ha hb (hidf key) hkeys.1 hscore, List.map_cons,
        List.map_cons, List.sum_cons, List.sum_cons, ← Nat.add_assoc, ← Nat.add_assoc]
      by_cases hnext : score.denominator +
          classWeight key * idfMult key * max (a.count key) (b.count key) < 2 ^ 64
      · rw [checkedU64_of_lt hnext]
        exact ih hkeys.2 (add_le_add hscore (Nat.mul_le_mul_left _ min_le_max)) hnext
      · have hnone : checkedU64 (score.denominator +
            classWeight key * idfMult key * max (a.count key) (b.count key)) = none := if_neg hnext
        have hlast : ∀ rest, checkedU64 (score.denominator +
            classWeight key * idfMult key * max (a.count key) (b.count key) + rest) = none :=
          fun rest ↦ if_neg (by omega)
        rw [hnone, hlast]
        rfl

theorem similarityWeightedU64_eq (ha : a.WellFormed) (hb : b.WellFormed)
    (hidf : ∀ key, idfMult key ≤ idfMax) :
    similarityWeightedU64 a b idfMult =
      if (similarityWeighted a b idfMult).denominator < 2 ^ 64 then
        some (similarityWeighted a b idfMult) else none := by
  have hsum (term : Bytes → ℕ) :
      ((unionKeys a b).sort.map term).sum = ∑ key ∈ unionKeys a b, term key := by
    conv_rhs => rw [← Finset.sort_toFinset (unionKeys a b) (· ≤ ·)]
    exact (List.sum_toFinset term (Finset.sort_nodup _ _)).symm
  unfold similarityWeightedU64
  rw [foldlM_addFeature ha hb hidf (fun key hkey ↦ (Finset.mem_sort _).mp hkey) le_rfl
    (by norm_num)]
  simp only [Nat.zero_add, hsum]
  unfold similarityWeighted checkedU64
  dsimp only
  split_ifs <;> rfl

theorem denominator_le (ha : a.WellFormed) (hb : b.WellFormed)
    (hidf : ∀ key, idfMult key ≤ idfMax) :
    (similarityWeighted a b idfMult).denominator ≤
      (a.features.length + b.features.length) * 1536 := by
  have hterm : ∀ key ∈ unionKeys a b,
      classWeight key * idfMult key * max (a.count key) (b.count key) ≤ 1536 := by
    intro key _
    have hcount := max_le (ha.count_le key) (hb.count_le key)
    unfold classWeight
    cases tagOf key with
    | none => simp
    | some tag => exact weight_mul_count_le (hidf key) hcount
  have hcard : (unionKeys a b).card ≤ a.features.length + b.features.length :=
    calc (unionKeys a b).card ≤ a.featureKeys.toFinset.card + b.featureKeys.toFinset.card :=
          Finset.card_union_le _ _
      _ ≤ a.featureKeys.length + b.featureKeys.length :=
          add_le_add (List.toFinset_card_le _) (List.toFinset_card_le _)
      _ = a.features.length + b.features.length := by
          simp [SemanticSignature.featureKeys]
  calc (similarityWeighted a b idfMult).denominator ≤ (unionKeys a b).card * 1536 := by
        unfold similarityWeighted
        simpa using Finset.sum_le_card_nsmul _ _ _ hterm
    _ ≤ (a.features.length + b.features.length) * 1536 := Nat.mul_le_mul_right _ hcard

end

/-- The weighted similarity is symmetric, at most one, and one exactly for signatures that agree on
every feature of positive weight; the machine computes it for all but 2^53 features. -/
theorem similarityWeighted_ratio {left right : SemanticMetadata} {idfMult : Bytes → ℕ}
    (hidf : ∀ key, idfMult key ≤ idfMax) :
    let a := semanticSignature left
    let b := semanticSignature right
    similarityWeightedU64 a b idfMult = similarityWeightedU64 b a idfMult ∧
      (∀ score, similarityWeightedU64 a b idfMult = some score →
        score = similarityWeighted a b idfMult ∧ score.numerator ≤ score.denominator ∧
        (0 < score.denominator ↔ ∃ key ∈ unionKeys a b, 0 < classWeight key * idfMult key) ∧
        (score.numerator = score.denominator ↔ AgreeWeighted a b idfMult)) ∧
      ((a.features.length + b.features.length) * 1536 < 2 ^ 64 →
        similarityWeightedU64 a b idfMult = some (similarityWeighted a b idfMult)) := by
  have ha := wellFormed_semanticSignature left
  have hb := wellFormed_semanticSignature right
  have hloop := similarityWeightedU64_eq ha hb hidf
  refine ⟨?_, fun score hscore ↦ ?_, fun hsize ↦ ?_⟩
  · rw [hloop, similarityWeightedU64_eq hb ha hidf, similarityWeighted_comm]
  · rw [hloop] at hscore
    split_ifs at hscore
    cases hscore
    exact ⟨rfl, numerator_le_denominator idfMult, denominator_pos_iff idfMult ha hb,
      numerator_eq_denominator_iff idfMult ha hb⟩
  · rw [hloop, if_pos (lt_of_le_of_lt (denominator_le ha hb hidf) hsize)]

/-- One field in kilograms, known by its id in one of the two. -/
def weighedField (cfid : Option String) : SemanticMetadata :=
  ⟨some "shipment", [⟨[.key "mass"],
    { FieldSemantics.none with canonicalFieldId := cfid, unit := some ⟨.ucum, "kg"⟩ }⟩]⟩

theorem similarityWeighted_ratio_weighed :
    similarityWeightedU64 (semanticSignature (weighedField (some "cfid_mass")))
        (semanticSignature (weighedField none)) (fun _ ↦ idfMax) =
      some (similarityWeighted (semanticSignature (weighedField (some "cfid_mass")))
        (semanticSignature (weighedField none)) fun _ ↦ idfMax) :=
  (similarityWeighted_ratio fun _ ↦ le_rfl).2.2 (by decide +kernel)

end Deblob.Semantic.Signature
