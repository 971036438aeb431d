import Deblob.Lib.Affine
import Deblob.Umbrella.Units

/-!
# Physical quantities

What a number in a unit stands for: an amount of the base unit of the unit's dimension, which an
affine map gives. A currency and a code outside the table are quantities of their own. Every rule of
the registry maps the numbers of its first unit to numbers of its second one for the same quantity.
-/

namespace Deblob.Umbrella

open Lib

/-- The numbers of a code in the base unit of its dimension: kelvin, pascal, watt, joule, second,
metre and one. -/
def scales : List (String × Affine ℚ) :=
  [("Cel", ⟨1, 273.15⟩), ("K", .refl ℚ), ("[degF]", ⟨5 / 9, 459.67 * 5 / 9⟩),
    ("Pa", .refl ℚ), ("hPa", ⟨100, 0⟩), ("kPa", ⟨1000, 0⟩), ("bar", ⟨100000, 0⟩),
    ("W", .refl ℚ), ("kW", ⟨1000, 0⟩), ("MW", ⟨1000000, 0⟩), ("GW", ⟨1000000000, 0⟩),
    ("J", .refl ℚ), ("kW.h", ⟨3600000, 0⟩), ("MW.h", ⟨3600000000, 0⟩),
    ("s", .refl ℚ), ("min", ⟨60, 0⟩), ("h", ⟨3600, 0⟩),
    ("m", .refl ℚ), ("km", ⟨1000, 0⟩),
    ("1", .refl ℚ), ("%", ⟨0.01, 0⟩)]

/-- Exactly the codes with a dimension have a scale. -/
theorem scales_codes : scales.map Prod.fst = dimensions.map Prod.fst := rfl

inductive QuantityKind where
  | of (dimension : Dimension)
  | own (unit : Unit)
deriving DecidableEq

/-- What is measured in a unit. -/
def Unit.kind (unit : Unit) : QuantityKind :=
  match unit.system with
  | .iso4217 => .own unit
  | .ucum | .registered =>
    match dimensions.lookup unit.code with
    | some dimension => .of dimension
    | none => .own unit

def scaleOf (code : String) : Affine ℚ := (scales.lookup code).getD (.refl ℚ)

def Unit.toBase (unit : Unit) : Affine ℚ :=
  match unit.system with
  | .iso4217 => .refl ℚ
  | .ucum | .registered => scaleOf unit.code

@[ext]
structure Quantity where
  kind : QuantityKind
  amount : ℚ
deriving DecidableEq

/-- The quantity a number stands for. -/
def Unit.denote (unit : Unit) (number : ℚ) : Quantity := ⟨unit.kind, unit.toBase.apply number⟩

theorem scaleOf_factor_ne_zero (code : String) : (scaleOf code).factor ≠ 0 := by
  have hscales : ∀ scale ∈ scales, scale.2.factor ≠ 0 := by decide +kernel
  unfold scaleOf
  cases hlookup : scales.lookup code with
  | none => exact one_ne_zero
  | some scale =>
      rcases List.lookup_eq_some_iff.mp hlookup with ⟨before, after, hsplit, -⟩
      exact hscales (code, scale) (by simp [hsplit])

theorem Unit.toBase_factor_ne_zero (unit : Unit) : unit.toBase.factor ≠ 0 := by
  unfold Unit.toBase
  split
  · exact one_ne_zero
  · exact scaleOf_factor_ne_zero unit.code
  · exact scaleOf_factor_ne_zero unit.code

/-- A quantity is a single number in a unit. -/
theorem Unit.denote_injective (unit : Unit) : Function.Injective unit.denote := fun _ _ heq ↦
  Affine.apply_injective unit.toBase_factor_ne_zero (congrArg Quantity.amount heq)

/-! ## Rules -/

def ConversionRule.map {F : Type} (rule : ConversionRule F) : Affine F := ⟨rule.factor, rule.offset⟩

def ConversionRule.codes {F : Type} (rule : ConversionRule F) : String × String × String :=
  (rule.ruleId, rule.fromCode, rule.toCode)

/-- Which rule an id names does not depend on the numbers of the table. -/
theorem rule_codes (F G : Type) [OfScientific F] [Neg F] [OfScientific G] [Neg G]
    (ruleId : String) : (rule ruleId : Option (ConversionRule F)).map ConversionRule.codes =
      (rule ruleId : Option (ConversionRule G)).map ConversionRule.codes := by
  have hcodes (H : Type) [OfScientific H] [Neg H] :
      (rule ruleId : Option (ConversionRule H)).map ConversionRule.codes =
        ((rules : List (ConversionRule H)).map ConversionRule.codes).find?
          fun codes ↦ codes.1 = ruleId := by
    rw [List.find?_map]
    rfl
  exact (hcodes F).trans (hcodes G).symm

/-- Each rule is the change of scale between its two codes. -/
theorem rules_scale : ∀ rule ∈ (rules : List (ConversionRule ℚ)),
    (scaleOf rule.toCode).comp rule.map = scaleOf rule.fromCode := by
  decide +kernel

section Units

variable {source target : Unit}

theorem Unit.toBase_of_ne (hsource : source.system ≠ .iso4217) :
    source.toBase = scaleOf source.code := by
  unfold Unit.toBase
  split
  · contradiction
  · rfl
  · rfl

theorem Unit.kind_of_dimension (hsource : source.system ≠ .iso4217) {dimension : Dimension}
    (hdimension : dimensionOf source = some dimension) : source.kind = .of dimension := by
  rcases source with ⟨system, code⟩
  cases system with
  | iso4217 => contradiction
  | ucum =>
      have hlookup : dimensions.lookup code = some dimension := hdimension
      simp only [kind, hlookup]
  | registered =>
      have hlookup : dimensions.lookup code = some dimension := hdimension
      simp only [kind, hlookup]

/-- What a passed check of a conversion says, apart from currencies. -/
theorem verifyConversion_eq_ok {ruleId : String}
    (hverified : verifyConversion source target ruleId = .ok ⟨⟩)
    (hsource : source.system ≠ .iso4217) :
    target.system ≠ .iso4217 ∧
      (∃ dimension, dimensionOf source = some dimension ∧ dimensionOf target = some dimension) ∧
      ∃ found : ConversionRule Float, rule ruleId = some found ∧
        found.fromCode = source.code ∧ found.toCode = target.code := by
  unfold verifyConversion at hverified
  split_ifs at hverified with hcurrency hsame
  · subst hsame
    exact absurd (or_self_iff.mp hcurrency) hsource
  · rw [not_or] at hcurrency
    refine ⟨hcurrency.2, ?_⟩
    split at hverified
    · contradiction
    · contradiction
    · split_ifs at hverified with hdimension
      rename_i sourceDim targetDim hfrom hto
      rw [not_not] at hdimension
      split at hverified
      · contradiction
      · rename_i found hfound
        split_ifs at hverified with hcodes
        rw [not_or, not_not, not_not] at hcodes
        exact ⟨⟨sourceDim, hfrom, hdimension ▸ hto⟩, found, hfound, hcodes⟩

/-- A conversion that passed its check between units that are no currencies keeps the quantity. -/
theorem verifyConversion_denotes {ruleId : String}
    (hverified : verifyConversion source target ruleId = .ok ⟨⟩)
    (hsource : source.system ≠ .iso4217) :
    target.system ≠ .iso4217 ∧ target.kind = source.kind ∧
      ∃ found : ConversionRule ℚ, rule ruleId = some found ∧
        target.toBase.comp found.map = source.toBase := by
  obtain ⟨htarget, ⟨dimension, hfrom, hto⟩, float, hfloat, hfromCode, htoCode⟩ :=
    verifyConversion_eq_ok hverified hsource
  have hkind : target.kind = source.kind :=
    (Unit.kind_of_dimension htarget hto).trans (Unit.kind_of_dimension hsource hfrom).symm
  refine ⟨htarget, hkind, ?_⟩
  have hcodes := rule_codes Float ℚ ruleId
  rw [hfloat, Option.map_some, eq_comm, Option.map_eq_some_iff] at hcodes
  obtain ⟨found, hfound, hsame⟩ := hcodes
  simp only [ConversionRule.codes, Prod.mk.injEq] at hsame
  refine ⟨found, hfound, ?_⟩
  calc target.toBase.comp found.map
      = (scaleOf found.toCode).comp found.map := by
        rw [Unit.toBase_of_ne htarget, hsame.2.2, htoCode]
    _ = scaleOf found.fromCode := rules_scale found (List.mem_of_find?_eq_some hfound)
    _ = source.toBase := by rw [Unit.toBase_of_ne hsource, hsame.2.1, hfromCode]

/-- A currency is only converted to itself. -/
theorem verifyConversion_currency {ruleId : String}
    (hverified : verifyConversion source target ruleId = .ok ⟨⟩)
    (hsource : source.system = .iso4217) : source = target := by
  unfold verifyConversion at hverified
  split_ifs at hverified with hcurrency hsame
  · exact hsame
  · exact absurd (.inl hsource) hcurrency

end Units

end Deblob.Umbrella
