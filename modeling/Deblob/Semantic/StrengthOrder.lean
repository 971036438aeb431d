import Deblob.Semantic.Signature

/-!
# Strength with and without document frequencies

Document frequencies take anchors away and give none. The coverage of a match is measured on the
anchors that are left, in its numerator and in its denominator, so a match can gain coverage when a
field that is not shared loses its weight. This is the one way in which frequencies raise a strength.
-/

namespace Deblob.Semantic.Signature

open Core Lib

/-- The multiplier without corpus statistics. -/
def saturated : Bytes → ℕ := fun _ ↦ 2 ^ 64 - 1

def strength (a b : SemanticSignature) : Strength := strengthWeighted a b saturated

/-- The field ids that can anchor a match. -/
def anchorFields (signature : SemanticSignature) (idfMult : Bytes → ℕ) : Finset String :=
  signature.canonicalFieldIds.filter (IsAnchorCfid idfMult)

/-- The anchors of the side that has fewer. -/
def minAnchorFields (a b : SemanticSignature) (idfMult : Bytes → ℕ) : ℕ :=
  min (anchorFields a idfMult).card (anchorFields b idfMult).card

/-- Two anchors are shared and they cover half of the smaller side. -/
def Covered (a b : SemanticSignature) (idfMult : Bytes → ℕ) : Prop :=
  2 ≤ sharedAnchorFieldCount a b idfMult ∧ 0 < minAnchorFields a b idfMult ∧
    minAnchorFields a b idfMult ≤ sharedAnchorFieldCount a b idfMult * 2

instance (a b : SemanticSignature) (idfMult : Bytes → ℕ) : Decidable (Covered a b idfMult) :=
  inferInstanceAs (Decidable (_ ∧ _ ∧ _))

/-- No event decides the match, and the frequencies take so many anchors that are not shared that
the shared ones come to cover half of the smaller side. -/
structure RaisedByCoverage (a b : SemanticSignature) (idfMult : Bytes → ℕ) : Prop where
  anchorA : HasAnchor a
  anchorB : HasAnchor b
  event : ¬ SameEvent a b
  eventTypes : ¬ DifferingEventTypes a b
  shared : 2 ≤ sharedAnchorFieldCount a b idfMult
  covered : minAnchorFields a b idfMult ≤ sharedAnchorFieldCount a b idfMult * 2
  uncovered : sharedAnchorFieldCount a b saturated * 2 < minAnchorFields a b saturated

section

variable {a b : SemanticSignature} (idfMult : Bytes → ℕ)

/-! ## Symmetry -/

theorem sameEvent_comm : SameEvent a b ↔ SameEvent b a := by
  constructor
  · rintro ⟨hsome, heq⟩
    exact ⟨heq ▸ hsome, heq.symm⟩
  · rintro ⟨hsome, heq⟩
    exact ⟨heq ▸ hsome, heq.symm⟩

theorem differingEventTypes_comm : DifferingEventTypes a b ↔ DifferingEventTypes b a :=
  ⟨fun ⟨ha, hb, hne⟩ ↦ ⟨hb, ha, hne.symm⟩, fun ⟨hb, ha, hne⟩ ↦ ⟨ha, hb, hne.symm⟩⟩

theorem sharedAnchorFieldCount_comm :
    sharedAnchorFieldCount a b idfMult = sharedAnchorFieldCount b a idfMult := by
  unfold sharedAnchorFieldCount
  rw [Finset.inter_comm]

/-- A class overlaps if a feature of it is counted on both sides. -/
theorem mem_overlappingTags (ha : SortedKeys a.features) {tag : FeatureTag} :
    tag ∈ overlappingTags a b ↔ ∃ key, 0 < a.count key ∧ 0 < b.count key ∧ tagOf key = some tag := by
  have hcount (key : Bytes) (count : ℕ) (hmem : (key, count) ∈ a.features) : a.count key = count := by
    unfold SemanticSignature.count getEntry
    rw [ha.mem_iff.mp hmem]
    rfl
  simp only [overlappingTags, List.mem_toFinset, List.mem_filterMap, List.mem_filter]
  constructor
  · rintro ⟨⟨key, count⟩, ⟨hmem, hcounts⟩, htag⟩
    have hcounts := of_decide_eq_true hcounts
    exact ⟨key, hcount key count hmem ▸ Nat.pos_of_ne_zero hcounts.1, hcounts.2, htag⟩
  · rintro ⟨key, hleft, hright, htag⟩
    rcases List.mem_map.mp (mem_featureKeys_of_count hleft) with ⟨⟨_, count⟩, hmem, rfl⟩
    refine ⟨(_, count), ⟨hmem, decide_eq_true ⟨?_, hright⟩⟩, htag⟩
    rw [hcount _ count hmem] at hleft
    exact hleft.ne'

theorem overlappingTags_comm (ha : SortedKeys a.features) (hb : SortedKeys b.features) :
    overlappingTags a b = overlappingTags b a := by
  ext tag
  rw [mem_overlappingTags ha, mem_overlappingTags hb]
  exact exists_congr fun key ↦ and_left_comm

theorem strengthWeighted_comm (ha : SortedKeys a.features) (hb : SortedKeys b.features) :
    strengthWeighted a b idfMult = strengthWeighted b a idfMult := by
  have hcomputed : computedStrength a b idfMult = computedStrength b a idfMult := by
    unfold computedStrength
    rw [sharedAnchorFieldCount_comm, min_comm, overlappingTags_comm ha hb, Finset.inter_comm]
    simp only [@sameEvent_comm a b]
  unfold strengthWeighted
  simp only [hcomputed, @differingEventTypes_comm a b, or_comm]

theorem sortedKeys_foldl_bump (keys : List Bytes) : SortedKeys (keys.foldl bump []) := by
  induction keys using List.reverseRecOn with
  | nil => exact List.Pairwise.nil
  | append_singleton keys key ih =>
      rw [List.foldl_append]
      exact sortedKeys_insertWith ih _ _ _

/-- The features of a signature are kept in the order of their keys. -/
theorem sortedKeys_semanticSignature (metadata : SemanticMetadata) :
    SortedKeys (semanticSignature metadata).features :=
  sortedKeys_foldl_bump _

/-! ## What frequencies take away -/

variable {idfMult}

theorem isAnchorCfid_saturated {cfid : String} :
    IsAnchorCfid saturated cfid ↔ cfid ∉ genericCfids :=
  and_iff_left (show 2 ≤ 2 ^ 64 - 1 by decide)

/-- Frequencies give no anchor. -/
theorem IsAnchorCfid.of_idf {cfid : String} (hanchor : IsAnchorCfid idfMult cfid) :
    IsAnchorCfid saturated cfid :=
  isAnchorCfid_saturated.mpr hanchor.1

theorem sharedAnchorFieldCount_le :
    sharedAnchorFieldCount a b idfMult ≤ sharedAnchorFieldCount a b saturated :=
  Finset.card_le_card (Finset.monotone_filter_right _ fun _ _ ↦ IsAnchorCfid.of_idf)

/-- What is shared is an anchor on both sides. -/
theorem sharedAnchorFieldCount_le_minAnchorFields :
    sharedAnchorFieldCount a b idfMult ≤ minAnchorFields a b idfMult := by
  apply le_min
  · exact Finset.card_le_card (Finset.filter_subset_filter _ Finset.inter_subset_left)
  · exact Finset.card_le_card (Finset.filter_subset_filter _ Finset.inter_subset_right)

/-! ## The order of the strengths -/

/-- The strength of a match that is neither of one event nor covered, by what it shares. -/
def sharedStrength (a b : SemanticSignature) (idfMult : Bytes → ℕ) : Strength :=
  if 1 ≤ sharedAnchorFieldCount a b idfMult ∨
      ((a.identifierNamespaces ∩ b.identifierNamespaces).Nonempty ∧
        ∃ tag ∈ overlappingTags a b, tag ≠ .idns) then
    .medium
  else if .unit ∈ overlappingTags a b ∨ .temporal ∈ overlappingTags a b ∨
      .enumMeaning ∈ overlappingTags a b then
    .weak
  else .insufficient

theorem computedStrength_eq :
    computedStrength a b idfMult =
      if SameEvent a b ∨ Covered a b idfMult then .strong else sharedStrength a b idfMult :=
  rfl

theorem sharedStrength_le_medium : sharedStrength a b idfMult ≤ .medium := by
  unfold sharedStrength
  split_ifs <;> decide

theorem sharedStrength_eq_medium (hshared : 1 ≤ sharedAnchorFieldCount a b idfMult) :
    sharedStrength a b idfMult = .medium :=
  if_pos (.inl hshared)

theorem sharedStrength_le : sharedStrength a b idfMult ≤ sharedStrength a b saturated := by
  by_cases hshared : 1 ≤ sharedAnchorFieldCount a b saturated
  · rw [sharedStrength_eq_medium hshared]
    exact sharedStrength_le_medium
  · have hnone : ¬ 1 ≤ sharedAnchorFieldCount a b idfMult :=
      fun hsome ↦ hshared (hsome.trans sharedAnchorFieldCount_le)
    apply le_of_eq
    unfold sharedStrength
    simp only [hshared, hnone]

theorem strong_le_iff {value : Strength} : .strong ≤ value ↔ value = .strong := by
  cases value <;> decide

/-- The computed strength rises from medium to strong, and only by coverage. -/
theorem computedStrength_le_iff (hevent : ¬ SameEvent a b) :
    computedStrength a b idfMult ≤ computedStrength a b saturated ↔
      (Covered a b idfMult → Covered a b saturated) := by
  simp only [computedStrength_eq, hevent, false_or]
  by_cases hcovered : Covered a b saturated
  · rw [if_pos hcovered]
    exact iff_of_true (by split_ifs <;> cases sharedStrength a b idfMult <;> decide)
      fun _ ↦ hcovered
  · rw [if_neg hcovered]
    by_cases hraised : Covered a b idfMult
    · rw [if_pos hraised, strong_le_iff]
      refine iff_of_false (fun hstrong ↦ ?_) fun himp ↦ hcovered (himp hraised)
      exact absurd (hstrong ▸ @sharedStrength_le_medium a b saturated) (by decide)
    · rw [if_neg hraised]
      exact iff_of_true sharedStrength_le fun hcov ↦ absurd hcov hraised

/-- Up to medium, frequencies only take away. -/
theorem min_computedStrength_le :
    min (computedStrength a b idfMult) .medium ≤ computedStrength a b saturated := by
  by_cases hevent : SameEvent a b
  · rw [computedStrength_eq, computedStrength_eq, if_pos (.inl hevent), if_pos (.inl hevent)]
    decide
  by_cases hcovered : Covered a b idfMult
  · apply (min_le_right _ _).trans
    rw [computedStrength_eq]
    have hshared := hcovered.1.trans (@sharedAnchorFieldCount_le a b idfMult)
    rw [sharedStrength_eq_medium (by omega)]
    split_ifs <;> decide
  · apply (min_le_left _ _).trans
    exact (computedStrength_le_iff hevent).mpr fun hcov ↦ absurd hcov hcovered

/-- With two anchors shared under the frequencies, only the ratio can fail without them. -/
theorem not_covered_saturated_iff (hshared : 2 ≤ sharedAnchorFieldCount a b idfMult) :
    ¬ Covered a b saturated ↔
      sharedAnchorFieldCount a b saturated * 2 < minAnchorFields a b saturated := by
  have hmore := @sharedAnchorFieldCount_le a b idfMult
  have hmin := @sharedAnchorFieldCount_le_minAnchorFields a b saturated
  unfold Covered
  omega

theorem covered_iff :
    Covered a b idfMult ↔ 2 ≤ sharedAnchorFieldCount a b idfMult ∧
      minAnchorFields a b idfMult ≤ sharedAnchorFieldCount a b idfMult * 2 := by
  have hmin := @sharedAnchorFieldCount_le_minAnchorFields a b idfMult
  unfold Covered
  omega

theorem RaisedByCoverage.strengths (hraised : RaisedByCoverage a b idfMult) :
    strength a b = .medium ∧ strengthWeighted a b idfMult = .strong := by
  have hanchors : ¬ (¬ HasAnchor a ∨ ¬ HasAnchor b) := by
    push Not
    exact ⟨hraised.anchorA, hraised.anchorB⟩
  have hcovered : Covered a b idfMult := covered_iff.mpr ⟨hraised.shared, hraised.covered⟩
  have huncovered := (not_covered_saturated_iff hraised.shared).mpr hraised.uncovered
  have hshared := hraised.shared.trans (@sharedAnchorFieldCount_le a b idfMult)
  constructor
  · rw [strength, strengthWeighted, if_neg hanchors, if_neg hraised.eventTypes,
      computedStrength_eq, if_neg (not_or.mpr ⟨hraised.event, huncovered⟩)]
    exact sharedStrength_eq_medium (by omega)
  · rw [strengthWeighted, if_neg hanchors, if_neg hraised.eventTypes, computedStrength_eq,
      if_pos (.inr hcovered)]

theorem strengthWeighted_le (hraised : ¬ RaisedByCoverage a b idfMult) :
    strengthWeighted a b idfMult ≤ strength a b := by
  unfold strength strengthWeighted
  split_ifs with hanchors hdiffer
  · exact le_rfl
  · exact le_min min_computedStrength_le (min_le_right _ _)
  · by_cases hevent : SameEvent a b
    · rw [computedStrength_eq, computedStrength_eq, if_pos (.inl hevent), if_pos (.inl hevent)]
    apply (computedStrength_le_iff hevent).mpr
    intro hcovered
    by_contra huncovered
    push Not at hanchors
    rcases covered_iff.mp hcovered with ⟨hshared, hhalf⟩
    exact hraised ⟨hanchors.1, hanchors.2, hevent, hdiffer, hshared, hhalf,
      (not_covered_saturated_iff hshared).mp huncovered⟩

/-- Frequencies take anchors and give none, both strengths are symmetric, and a weighted strength is
above the unweighted one, strong instead of medium, exactly when it is raised by coverage. -/
theorem idf_strength_laws (ha : SortedKeys a.features) (hb : SortedKeys b.features) :
    (∀ cfid, IsAnchorCfid idfMult cfid → IsAnchorCfid saturated cfid) ∧
    strengthWeighted a b idfMult = strengthWeighted b a idfMult ∧
    strength a b = strength b a ∧
    (strengthWeighted a b idfMult ≤ strength a b ↔ ¬ RaisedByCoverage a b idfMult) ∧
    (RaisedByCoverage a b idfMult →
      strength a b = .medium ∧ strengthWeighted a b idfMult = .strong) := by
  refine ⟨fun cfid ↦ IsAnchorCfid.of_idf, strengthWeighted_comm idfMult ha hb,
    strengthWeighted_comm _ ha hb, ⟨fun hle hraised ↦ ?_, strengthWeighted_le⟩,
    RaisedByCoverage.strengths⟩
  rw [hraised.strengths.1, hraised.strengths.2] at hle
  exact absurd hle (by decide)

end

/-! ## A match that is raised -/

/-- Metadata without an event type whose fields assert a field id each and nothing else. -/
def namedFields (cfids : List String) : SemanticMetadata where
  eventType := none
  fields := cfids.map fun cfid ↦
    ⟨[.key cfid], { FieldSemantics.none with canonicalFieldId := some cfid }⟩

def raisedSubject : SemanticSignature :=
  semanticSignature (namedFields ["cfid_vin", "cfid_fleet", "cfid_speed", "cfid_fuel", "cfid_gear"])

def raisedOther : SemanticSignature :=
  semanticSignature (namedFields ["cfid_vin", "cfid_fleet", "cfid_tyre", "cfid_axle", "cfid_load"])

/-- In a corpus of 64 schemas, two of the field ids are in two schemas and the others in every one. -/
def raisedIdf (key : Bytes) : ℕ :=
  idfMultiplier 64 (if key ∈ ["cfid_vin", "cfid_fleet"].map encodeField then 2 else 64)

theorem strengthWeighted_raised :
    strength raisedSubject raisedOther = .medium ∧
      strengthWeighted raisedSubject raisedOther raisedIdf = .strong ∧
      ¬ strengthWeighted raisedSubject raisedOther raisedIdf ≤ strength raisedSubject raisedOther := by
  decide +kernel

theorem idf_strength_laws_raised :
    RaisedByCoverage raisedSubject raisedOther raisedIdf ∧
      strengthWeighted raisedSubject raisedOther raisedIdf =
        strengthWeighted raisedOther raisedSubject raisedIdf ∧
      ¬ strengthWeighted raisedSubject raisedOther raisedIdf ≤
        strength raisedSubject raisedOther := by
  have hraised : RaisedByCoverage raisedSubject raisedOther raisedIdf := by
    constructor <;> decide +kernel
  rcases idf_strength_laws (sortedKeys_semanticSignature _) (sortedKeys_semanticSignature _) with
    ⟨-, hcomm, -, hle, -⟩
  exact ⟨hraised, hcomm, fun hless ↦ hle.mp hless hraised⟩

end Deblob.Semantic.Signature
