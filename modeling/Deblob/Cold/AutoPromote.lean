import Deblob.Cold.GeneralizedSummary
import Deblob.Redis.Lifecycle
import Mathlib.Data.Set.Card

/-!
# Automatic promotion

A candidate is promoted without a human if its profile has enough leaf fields that are present in
every sample. A leaf is compared with its direct parent only, so a leaf that a document lacks counts
as present in every sample if the document lacks the parent as well, and the element of an array is
compared with the number of arrays. Ratios are rational numbers.
-/

namespace Deblob.Cold

open Core Lib Fingerprint Redis
open Deblob.Monoid

/-! ## The policy -/

structure AutoPromotePolicy where
  minSamples : ℕ
  minAgeMs : ℤ
  minRequiredFields : ℕ
  minRequiredRatio : ℚ

instance : Inhabited AutoPromotePolicy := ⟨⟨50, 10 * 60 * 1000, 2, 1 / 2⟩⟩

mutual

/-- The required leaves and all leaves, counted on top of `counts`. -/
def countLeaves (denom : ℕ) (counts : ℕ × ℕ) : FieldNode → ℕ × ℕ
  | ⟨present, _, types, children, arrayElem, _, _, _, _, _⟩ =>
    if children.isEmpty && arrayElem.isNone then
      (if 0 < denom ∧ present = denom then counts.1 + 1 else counts.1, counts.2 + 1)
    else countElem types.array (countChildren types.object counts children) arrayElem

def countChildren (denom : ℕ) (counts : ℕ × ℕ) : List (String × FieldNode) → ℕ × ℕ
  | [] => counts
  | (_, child) :: children => countChildren denom (countLeaves denom counts child) children

def countElem (denom : ℕ) (counts : ℕ × ℕ) : Option FieldNode → ℕ × ℕ
  | none => counts
  | some elem => countLeaves denom counts elem

end

/-- Why a candidate is not promoted. -/
inductive Ineligible where
  | samples (count minimum : ℕ)
  | age (ageMs minimum : ℤ)
  | corruptProfile (error : String)
  | noObservations
  | noLeafFields
  | requiredFields (required minimum : ℕ)
  | requiredRatio (ratio minimum : ℚ)
deriving DecidableEq

/-- A ratio as a percentage without decimals. -/
def formatPercent (ratio : ℚ) : String := formatFixed 0 (ratio * 100)

def Ineligible.message : Ineligible → String
  | samples count minimum =>
    "candidate has " ++ toString count ++ " sample(s), below the minimum of " ++ toString minimum
  | age ageMs minimum =>
    "candidate first seen " ++ toString ageMs ++ "ms ago, below the minimum age of " ++
      toString minimum ++ "ms"
  | corruptProfile error => "corrupt candidate profile: " ++ error
  | noObservations => "candidate profile has zero observations"
  | noLeafFields => "shape has no leaf fields — not settled"
  | requiredFields required minimum =>
    "shape has " ++ toString required ++ " required leaf field(s), below the minimum of " ++
      toString minimum
  | requiredRatio ratio minimum =>
    "shape is " ++ formatPercent ratio ++ "% required leaf fields, below the minimum " ++
      formatPercent minimum ++ "% — not settled"

section

variable {Stored : Type} (fromValue : Stored → Except String Profile)

/-- The checks of the profile alone. -/
def settled (policy : AutoPromotePolicy) (profile : Profile) : Except Ineligible Unit :=
  if profile.count = 0 then .error .noObservations
  else
    let (required, total) := countLeaves profile.count (0, 0) profile.root
    if total = 0 then .error .noLeafFields
    else if required < policy.minRequiredFields then
      .error (.requiredFields required policy.minRequiredFields)
    else if (required : ℚ) / total < policy.minRequiredRatio - 1 / 10 ^ 9 then
      .error (.requiredRatio (required / total) policy.minRequiredRatio)
    else .ok ()

/-- May a candidate be promoted without a human? -/
def AutoPromotePolicy.eligible (policy : AutoPromotePolicy) (record : CandidateRecord Stored)
    (nowMs : ℤ) : Except Ineligible Unit :=
  if record.sampleCount < policy.minSamples then
    .error (.samples record.sampleCount policy.minSamples)
  else if nowMs - record.firstSeenMs < policy.minAgeMs then
    .error (.age (nowMs - record.firstSeenMs) policy.minAgeMs)
  else
    match fromValue record.profile with
    | .error error => .error (.corruptProfile error)
    | .ok profile => settled policy profile

end

/-! ## The leaves of a field -/

/-- A leaf field, with what its presence is compared with. -/
structure Leaf where
  path : List Step
  denom : ℕ
  present : ℕ

def Leaf.below (step : Step) (leaf : Leaf) : Leaf := { leaf with path := step :: leaf.path }

/-- The source counts the leaf as required. -/
def Leaf.Required (leaf : Leaf) : Prop := 0 < leaf.denom ∧ leaf.present = leaf.denom

instance : DecidablePred Leaf.Required := fun _ ↦ inferInstanceAs (Decidable (_ ∧ _))

mutual

def leaves (denom : ℕ) : FieldNode → List Leaf
  | ⟨present, _, types, children, arrayElem, _, _, _, _, _⟩ =>
    if children.isEmpty && arrayElem.isNone then [⟨[], denom, present⟩]
    else childLeaves types.object children ++ elemLeaves types.array arrayElem

def childLeaves (denom : ℕ) : List (String × FieldNode) → List Leaf
  | [] => []
  | (key, child) :: children =>
    (leaves denom child).map (Leaf.below (.key key)) ++ childLeaves denom children

def elemLeaves (denom : ℕ) : Option FieldNode → List Leaf
  | none => []
  | some elem => (leaves denom elem).map (Leaf.below .elem)

end

def isLeaf (field : FieldNode) : Bool := field.children.isEmpty && field.arrayElem.isNone

theorem childLeaves_eq (denom : ℕ) (children : List (String × FieldNode)) :
    childLeaves denom children =
      children.flatMap fun child ↦ (leaves denom child.2).map (Leaf.below (.key child.1)) := by
  induction children with
  | nil => rfl
  | cons child children ih => rw [childLeaves, ih, List.flatMap_cons]

theorem elemLeaves_eq (denom : ℕ) (elem : Option FieldNode) :
    elemLeaves denom elem =
      elem.toList.flatMap fun elem ↦ (leaves denom elem).map (Leaf.below .elem) := by
  cases elem with
  | none => rfl
  | some elem => simp [elemLeaves]

theorem leaves_eq (denom : ℕ) (field : FieldNode) :
    leaves denom field =
      if isLeaf field then [⟨[], denom, field.present⟩]
      else childLeaves field.types.object field.children ++
        elemLeaves field.types.array field.arrayElem := by
  cases field
  rfl

def requiredLeaves (leaves : List Leaf) : List Leaf := leaves.filter (Leaf.Required ·)

theorem length_requiredLeaves_below (step : Step) (leaves : List Leaf) :
    (requiredLeaves (leaves.map (Leaf.below step))).length = (requiredLeaves leaves).length := by
  unfold requiredLeaves
  rw [List.filter_map, List.length_map]
  rfl

mutual

/-- The counts are the numbers of required leaves and of leaves. -/
theorem countLeaves_eq (denom : ℕ) (counts : ℕ × ℕ) : (field : FieldNode) →
    countLeaves denom counts field =
      (counts.1 + (requiredLeaves (leaves denom field)).length,
        counts.2 + (leaves denom field).length)
  | ⟨present, _, types, children, arrayElem, _, _, _, _, _⟩ => by
    rw [countLeaves, leaves]
    split_ifs with hleaf hrequired
    · simp [requiredLeaves, Leaf.Required, hrequired]
    · simp [requiredLeaves, Leaf.Required, hrequired]
    · rw [countElem_eq, countChildren_eq]
      simp only [requiredLeaves, List.filter_append, List.length_append, add_assoc]

theorem countChildren_eq (denom : ℕ) (counts : ℕ × ℕ) : (children : List (String × FieldNode)) →
    countChildren denom counts children =
      (counts.1 + (requiredLeaves (childLeaves denom children)).length,
        counts.2 + (childLeaves denom children).length)
  | [] => rfl
  | (key, child) :: children => by
    have hbelow := length_requiredLeaves_below (.key key) (leaves denom child)
    unfold requiredLeaves at hbelow
    rw [countChildren, countLeaves_eq, countChildren_eq, childLeaves]
    simp only [requiredLeaves, List.filter_append, List.length_append, List.length_map, hbelow,
      add_assoc]

theorem countElem_eq (denom : ℕ) (counts : ℕ × ℕ) : (elem : Option FieldNode) →
    countElem denom counts elem =
      (counts.1 + (requiredLeaves (elemLeaves denom elem)).length,
        counts.2 + (elemLeaves denom elem).length)
  | none => rfl
  | some elem => by
    rw [countElem, countLeaves_eq, elemLeaves, length_requiredLeaves_below, List.length_map]

end

mutual

/-- Every field has a leaf. -/
theorem leaves_ne_nil (denom : ℕ) : (field : FieldNode) → leaves denom field ≠ []
  | ⟨present, _, types, [], none, _, _, _, _, _⟩ => List.cons_ne_nil _ _
  | ⟨present, _, types, (key, child) :: children, arrayElem, _, _, _, _, _⟩ => by
    have hchild := leaves_ne_nil types.object child
    simp [leaves, childLeaves, hchild]
  | ⟨present, _, types, [], some elem, _, _, _, _, _⟩ => by
    have helem := leaves_ne_nil types.array elem
    simp [leaves, elemLeaves, helem]

end

end Deblob.Cold
