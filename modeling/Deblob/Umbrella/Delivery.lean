import Deblob.Umbrella.Alignment

/-!
# What a binding delivers

The anchor binds a field if its type widens without loss under the same unit, or if a rule converts
its unit. The binding it gets passes the check of its operators if the field is no array, the units
of a conversion are no currencies, and the type and unit at the end are what the gold field asks
for.
-/

namespace Deblob.Umbrella

/-- Another unit and a rule that converts to it. -/
def converts (source target : Option Unit) : Bool :=
  match source, target with
  | some source, some target => source ≠ target && (findRule source target).isSome
  | _, _ => false

/-- The anchor binds the field to a gold field with the type and unit of `source`. -/
def bindable (field source : AnnotatedField) : Bool :=
  (field.unit = source.unit && field.ty.widensLosslesslyTo source.ty) ||
    converts field.unit source.unit

def isCurrency (unit : Option Unit) : Bool :=
  unit.any fun unit ↦ unit.system = .iso4217

/-- Bound to a gold field with the type and unit of `source`, the field gives what a gold field with
the type and unit of `wanted` asks for. -/
structure Delivers (field source wanted : AnnotatedField) : Prop where
  scalar : field.isArray = false
  type : (if field.unit = source.unit then source.ty else .decimal).widensLosslesslyTo wanted.ty
  currency : field.unit = source.unit ∨
    isCurrency field.unit = false ∧ isCurrency source.unit = false
  unit : wanted.unit = none ∨ wanted.unit = source.unit

/-- Rules convert between units of one dimension and are found by their ids. -/
theorem rules_consistent : (rules : List (ConversionRule Float)).all fun found ↦
    (dimensions.lookup found.fromCode).isSome &&
      dimensions.lookup found.fromCode = dimensions.lookup found.toCode &&
      (rule found.ruleId : Option (ConversionRule Float)).any fun other ↦
        other.fromCode = found.fromCode && other.toCode = found.toCode := by
  decide +kernel

theorem dimensionOf_eq_lookup {unit : Unit} (hunit : isCurrency (some unit) = false) :
    dimensionOf unit = dimensions.lookup unit.code := by
  unfold dimensionOf
  cases hsystem : unit.system with
  | iso4217 => simp [isCurrency, hsystem] at hunit
  | ucum => rfl
  | registered => rfl

/-- The rule found for two units is verified unless one of them is a currency. -/
theorem verifyConversion_findRule {source target : Unit} {found : ConversionRule Float}
    (hrule : findRule source target = some found) (hne : source ≠ target) :
    verifyConversion source target found.ruleId = .ok ⟨⟩ ↔
      isCurrency (some source) = false ∧ isCurrency (some target) = false := by
  have hmem := List.mem_of_find?_eq_some hrule
  have hcodes : found.fromCode = source.code ∧ found.toCode = target.code := by
    simpa using List.find?_some hrule
  have hconsistent := List.all_eq_true.mp rules_consistent found hmem
  rw [hcodes.1, hcodes.2] at hconsistent
  simp only [Bool.and_eq_true, decide_eq_true_eq, Option.any_eq_true] at hconsistent
  rcases hconsistent with ⟨⟨hsome, hdimension⟩, other, hother, hfrom, hto⟩
  rcases Option.isSome_iff_exists.mp hsome with ⟨dimension, hdim⟩
  constructor
  · intro hverified
    unfold verifyConversion at hverified
    split_ifs at hverified with hcurrency
    simpa [isCurrency] using hcurrency
  · rintro ⟨hsource, htarget⟩
    have hcurrency : ¬ (source.system = .iso4217 ∨ target.system = .iso4217) := by
      simpa [isCurrency] using And.intro hsource htarget
    unfold verifyConversion
    rw [if_neg hcurrency, dimensionOf_eq_lookup hsource, dimensionOf_eq_lookup htarget,
      ← hdimension, hdim, hother]
    simp [hfrom, hto]

theorem unitRelation_self (unit : Option Unit) :
    unitRelation unit unit = .noUnits ∨ unitRelation unit unit = .same := by
  cases unit <;> simp [unitRelation]

theorem unitRelation_of_converts {source target : Option Unit} (h : converts source target) :
    ∃ child gold found, source = some child ∧ target = some gold ∧ child ≠ gold ∧
      findRule child gold = some found ∧
        unitRelation source target = .convertible found.ruleId := by
  cases source with
  | none => cases h
  | some child =>
      cases target with
      | none => cases h
      | some gold =>
          simp only [converts, Bool.and_eq_true, decide_eq_true_eq] at h
          rcases Option.isSome_iff_exists.mp h.2 with ⟨found, hfound⟩
          refine ⟨child, gold, found, rfl, rfl, h.1, hfound, ?_⟩
          simp [unitRelation, h.1, hfound]

theorem unitRelation_of_not_converts {source target : Option Unit} (hne : source ≠ target)
    (h : converts source target = false) : unitRelation source target = .incompatible := by
  cases source with
  | none =>
      cases target with
      | none => exact absurd rfl hne
      | some gold => rfl
  | some child =>
      cases target with
      | none => rfl
      | some gold =>
          have hunits : child ≠ gold := fun heq ↦ hne (congrArg some heq)
          have hnone : findRule child gold = none := by simpa [converts, hunits] using h
          simp [unitRelation, hunits, hnone]

theorem converts_self (unit : Option Unit) : converts unit unit = false := by
  cases unit <;> simp [converts]

section Gold

variable {field source : AnnotatedField} {gold : GoldField}

/-- What the anchor decides on type and unit. -/
theorem autoBindable_candidatePair (hty : gold.ty = .scalar source.ty)
    (hunit : gold.unit = source.unit) :
    (deterministicAnchor (candidatePair field gold)).autoBindable = bindable field source := by
  have hscalar : umbrellaScalar gold.toUmbrellaField = some source.ty := by
    rw [umbrellaScalar, hty]
  simp only [deterministicAnchor, candidatePair, hscalar, hunit, bindable, Bool.not_true,
    Bool.false_eq_true, if_false, Option.any_some]
  by_cases hsame : field.unit = source.unit
  · rw [hsame]
    rcases unitRelation_self source.unit with hrelation | hrelation <;>
      rw [hrelation] <;>
      cases field.ty.widensLosslesslyTo source.ty <;>
      simp [Relation.autoBindable, converts_self]
  · cases hconverts : converts field.unit source.unit with
    | true =>
        rcases unitRelation_of_converts hconverts with ⟨_, _, found, _, _, _, _, hrelation⟩
        rw [hrelation]
        simp [Relation.autoBindable]
    | false =>
        rw [unitRelation_of_not_converts hsame hconverts]
        simp [Relation.autoBindable, hsame]

/-- The cast of a binding is lossless. -/
theorem foldOps_castOps (hty : gold.ty = .scalar source.ty) (target : String) (ops : List Op) :
    foldOps target field.ty field.unit ((candidatePair field gold).castOps ++ ops) =
      foldOps target (if field.ty.widensLosslesslyTo source.ty then source.ty else field.ty)
        field.unit ops := by
  have hscalar : umbrellaScalar gold.toUmbrellaField = some source.ty := by
    rw [umbrellaScalar, hty]
  simp only [CandidatePair.castOps, candidatePair, hscalar]
  by_cases hwidens : field.ty.widensLosslesslyTo source.ty
  · rw [if_pos hwidens]
    by_cases hsame : field.ty = source.ty
    · simp [hsame]
    · simp [hsame, hwidens, foldOps]
  · simp [hwidens]

/-- The issues of the operators of a binding, and the type and unit they end with. -/
theorem foldOps_binding (hty : gold.ty = .scalar source.ty) (hunit : gold.unit = source.unit)
    (hbindable : bindable field source) (target : String) :
    ((foldOps target field.ty field.unit (candidatePair field gold).binding.ops).1 = [] ↔
      field.unit = source.unit ∨ isCurrency field.unit = false ∧ isCurrency source.unit = false) ∧
    (foldOps target field.ty field.unit (candidatePair field gold).binding.ops).2 =
      (if field.unit = source.unit then source.ty else .decimal, source.unit) := by
  have hevidence : (candidatePair field gold).evidence.unit =
      unitRelation field.unit source.unit := by
    rw [← hunit]
    rfl
  rw [CandidatePair.binding, foldOps_castOps hty]
  by_cases hsame : field.unit = source.unit
  · have hwidens : field.ty.widensLosslesslyTo source.ty := by
      simpa [bindable, hsame, converts_self] using hbindable
    have hops : (candidatePair field gold).unitOps = [] := by
      rw [CandidatePair.unitOps, hevidence, hsame]
      rcases unitRelation_self source.unit with hrelation | hrelation <;> rw [hrelation]
    rw [hops, if_pos hwidens, if_pos hsame]
    simp [foldOps, hsame]
  · have hconverts : converts field.unit source.unit := by
      simpa [bindable, hsame] using hbindable
    rcases unitRelation_of_converts hconverts with
      ⟨child, target, found, hchild, htarget, hne, hfound, hrelation⟩
    have hops : (candidatePair field gold).unitOps = [.unitConvert child target found.ruleId] := by
      rw [CandidatePair.unitOps, hevidence, hrelation]
      simp [candidatePair, hunit, hchild, htarget]
    have hverify := verifyConversion_findRule hfound hne
    rw [hops, hchild, htarget, if_neg (fun heq ↦ hne (Option.some.inj heq))]
    constructor
    · rw [foldOps, foldOps, if_pos rfl, List.nil_append, List.append_nil, ← hverify]
      cases hresult : verifyConversion child target found.ruleId with
      | ok _ => simp
      | error error => simp [hne]
    · rfl

/-- A binding passes the check of its operators if it delivers what the gold field asks for. -/
theorem checkOpChain_binding {wanted : AnnotatedField} {goal : UmbrellaField}
    (hty : gold.ty = .scalar source.ty) (hunit : gold.unit = source.unit)
    (hrequired : gold.cardinality = .required) (hbindable : bindable field source)
    (hgoal : goal.ty = .scalar wanted.ty) (hwanted : goal.unit = wanted.unit) (target : String) :
    checkOpChain field.toChildField goal (candidatePair field gold).binding target = [] ↔
      Delivers field source wanted := by
  have hsynthetic : isSyntheticOnly (candidatePair field gold).binding = false := by
    simp [isSyntheticOnly, CandidatePair.binding, candidatePair, hrequired]
  have hscalar : umbrellaScalar goal = some wanted.ty := by
    rw [umbrellaScalar, hgoal]
  rcases foldOps_binding hty hunit hbindable target with ⟨hissues, hresult⟩
  rw [checkOpChain, hsynthetic, if_neg Bool.false_ne_true, hscalar]
  cases harray : field.isArray with
  | true =>
      constructor
      · intro hnil
        cases hnil
      · intro hdelivers
        rw [hdelivers.scalar] at harray
        cases harray
  | false =>
      have htype : (foldOps target field.ty field.unit (candidatePair field gold).binding.ops).2.1 =
          if field.unit = source.unit then source.ty else .decimal := by rw [hresult]
      have hfinal : (foldOps target field.ty field.unit
          (candidatePair field gold).binding.ops).2.2 = source.unit := by rw [hresult]
      simp only [Option.isNone_some, Bool.or_self, Bool.false_eq_true, if_false,
        List.append_eq_nil_iff, hissues, htype, hfinal, hwanted, ite_eq_left_iff]
      constructor
      · rintro ⟨⟨hcurrency, hwidens⟩, hunits⟩
        refine ⟨harray, ?_, hcurrency, ?_⟩
        · by_contra hnot
          cases hwidens hnot
        · by_contra hnot
          push Not at hnot
          have hunit : wanted.unit.isSome && source.unit ≠ wanted.unit := by
            rw [Option.isSome_iff_ne_none.mpr hnot.1]
            simp [hnot.2.symm]
          rw [if_pos hunit] at hunits
          cases hunits
      · intro hdelivers
        refine ⟨⟨hdelivers.currency, fun hnot ↦ absurd hdelivers.type hnot⟩, if_neg ?_⟩
        rcases hdelivers.unit with hnone | hsame
        · simp [hnone]
        · simp [hsame]

end Gold

end Deblob.Umbrella
