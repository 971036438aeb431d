import Deblob.Umbrella.Verify

/-!
# Types of operator chains

What an operator makes of a type, also inside arrays, as far as the executor can run it. A value of
the type a chain starts from is mapped without an error to a value of the type it ends with, if the
numbers it converts stay in the range of 64-bit floats.
-/

namespace Deblob.Umbrella

open Lib

/-! ## Widening -/

def FieldType.widensLosslesslyTo : FieldType → FieldType → Bool
  | .scalar ty, .scalar target => ty.widensLosslesslyTo target
  | .array element, .array target => element.widensLosslesslyTo target
  | _, _ => false

theorem valueMatches_scalar_iff {want : ScalarType} {value : Value} :
    valueMatches (.scalar want) value ↔
      ∃ got, valueScalarType value = some got ∧ got.widensLosslesslyTo want := by
  rw [valueMatches, Option.any_eq_true]

theorem valueMatches_array_iff {element : FieldType} {value : Value} :
    valueMatches (.array element) value ↔
      ∃ items, value = .array items ∧ ∀ item ∈ items, valueMatches element item := by
  rw [valueMatches, Option.any_eq_true]
  cases value <;> simp [Value.asArray]

/-- A typed value is no object: no path leads into it. -/
theorem eq_nil_of_getAt {ty : FieldType} {value found : Value} (hvalue : valueMatches ty value)
    {path : List String} (hget : value.getAt path = some found) : path = [] := by
  cases path with
  | nil => rfl
  | cons segment path =>
      cases value with
      | object entries => cases ty <;> contradiction
      | _ => contradiction

theorem valueMatches_of_widens {ty target : FieldType} (hwidens : ty.widensLosslesslyTo target)
    {value : Value} (hvalue : valueMatches ty value) : valueMatches target value := by
  induction ty generalizing target value with
  | scalar ty =>
      cases target with
      | scalar target =>
          obtain ⟨got, hgot, hty⟩ := valueMatches_scalar_iff.mp hvalue
          exact valueMatches_scalar_iff.mpr
            ⟨got, hgot, ScalarType.widensLosslesslyTo_trans hty hwidens⟩
      | array target => contradiction
  | array element ih =>
      cases target with
      | scalar target => contradiction
      | array target =>
          obtain ⟨items, rfl, hitems⟩ := valueMatches_array_iff.mp hvalue
          exact valueMatches_array_iff.mpr
            ⟨items, rfl, fun item hitem ↦ ih hwidens (hitems item hitem)⟩

/-! ## Types of operators -/

def ScalarType.isNumeric (ty : ScalarType) : Bool := ty = .integer || ty = .decimal

def hasRule (ruleId : String) : Bool := (rule ruleId : Option (ConversionRule Float)).isSome

mutual

/-- The type of an operator's results, if the executor can run it on all values of a type. -/
def opType : Op → FieldType → Option FieldType
  | .cast target, .scalar ty =>
    if ty.widensLosslesslyTo target then some (.scalar target) else none
  | .unitConvert _ _ ruleId, .scalar ty =>
    if ty.isNumeric && hasRule ruleId then some (.scalar .decimal) else none
  | .default _ _, ty => some ty
  | .arrayMap elementOps, .array element => (chainType elementOps element).map .array
  | _, _ => none

def chainType : List Op → FieldType → Option FieldType
  | [], ty => some ty
  | op :: ops, ty => (opType op ty).bind (chainType ops)

end

mutual

/-- The conversions of an operator neither start nor end outside the finite floats. -/
def opInRange (srcPath : String) : Op → Value → Bool
  | .unitConvert _ _ ruleId, .number number =>
    match number.asF64 with
    | none => false
    | some value =>
      match convert value ruleId with
      | .error _ => true
      | .ok converted => converted.isFinite
  | .arrayMap elementOps, .array items => items.all (inRange srcPath elementOps)
  | _, _ => true

def inRange (srcPath : String) : List Op → Value → Bool
  | [], _ => true
  | op :: ops, value =>
    opInRange srcPath op value &&
      match applyOp srcPath op value with
      | .error _ => true
      | .ok mapped => inRange srcPath ops mapped

end

/-! ## Typed chains run -/

theorem valueScalarType_ofF64 {value : Float} (hfinite : value.isFinite) :
    valueScalarType (.ofF64 value) = some .decimal := by
  rw [Value.ofF64, dif_pos hfinite]
  rfl

theorem exists_number_of_isNumeric {value : Value} {ty : ScalarType}
    (hvalue : valueScalarType value = some ty) (hty : ty.isNumeric) :
    ∃ number, value = .number number := by
  cases value with
  | number number => exact ⟨number, rfl⟩
  | bool _ => rw [← Option.some.inj hvalue] at hty; contradiction
  | string _ => rw [← Option.some.inj hvalue] at hty; contradiction
  | _ => contradiction

theorem ScalarType.isNumeric_eq_of_widens {ty target : ScalarType}
    (hwidens : ty.widensLosslesslyTo target) : ty.isNumeric = target.isNumeric := by
  cases ty <;> cases target <;> first | rfl | contradiction

theorem convert_ok {ruleId : String} (hrule : hasRule ruleId) (value : Float) :
    ∃ converted, convert value ruleId = .ok converted := by
  obtain ⟨rule, hrule⟩ := Option.isSome_iff_exists.mp hrule
  exact ⟨_, by rw [convert, hrule]⟩

theorem applyOp_cast_typed (srcPath : String) {ty target : ScalarType} {value : Value}
    (hwidens : ty.widensLosslesslyTo target) (hvalue : valueMatches (.scalar ty) value) :
    ∃ mapped, applyOp srcPath (.cast target) value = .ok mapped ∧
      valueMatches (.scalar target) mapped := by
  have hmatches : valueMatches (.scalar target) value :=
    @valueMatches_of_widens (.scalar ty) (.scalar target) hwidens value hvalue
  obtain ⟨got, hgot, hwiden⟩ := valueMatches_scalar_iff.mp hmatches
  refine ⟨value, ?_, hmatches⟩
  simp only [applyOp, hgot, if_pos hwiden]

theorem applyOp_unitConvert_typed (srcPath : String) {source target : Unit} {ruleId : String}
    {ty : ScalarType} {value : Value} (hty : ty.isNumeric) (hrule : hasRule ruleId)
    (hvalue : valueMatches (.scalar ty) value)
    (hrange : opInRange srcPath (.unitConvert source target ruleId) value) :
    ∃ mapped, applyOp srcPath (.unitConvert source target ruleId) value = .ok mapped ∧
      valueMatches (.scalar .decimal) mapped := by
  obtain ⟨got, hgot, hwidens⟩ := valueMatches_scalar_iff.mp hvalue
  obtain ⟨number, rfl⟩ :=
    exists_number_of_isNumeric hgot (ScalarType.isNumeric_eq_of_widens hwidens ▸ hty)
  cases hnumber : number.asF64 with
  | none => simp [opInRange, hnumber] at hrange
  | some float =>
      obtain ⟨converted, hconverted⟩ := convert_ok hrule float
      have hfinite : converted.isFinite := by simpa [opInRange, hnumber, hconverted] using hrange
      refine ⟨.ofF64 converted, ?_, ?_⟩
      · simp only [applyOp, Value.asF64, hnumber, Number.isFinite_of_asF64 hnumber, if_true,
          hconverted]
      · exact valueMatches_scalar_iff.mpr ⟨.decimal, valueScalarType_ofF64 hfinite, by simp⟩

mutual

theorem applyOp_typed (srcPath : String) : ∀ (op : Op) {ty result : FieldType} {value : Value},
    opType op ty = some result → valueMatches ty value → opInRange srcPath op value →
    ∃ mapped, applyOp srcPath op value = .ok mapped ∧ valueMatches result mapped
  | .cast target, .scalar ty, result, value, htype, hvalue, _ => by
    rw [opType] at htype
    split_ifs at htype with hwidens
    obtain rfl := Option.some.inj htype
    exact applyOp_cast_typed srcPath hwidens hvalue
  | .unitConvert source target ruleId, .scalar ty, result, value, htype, hvalue, hrange => by
    rw [opType] at htype
    split_ifs at htype with hrule
    obtain rfl := Option.some.inj htype
    obtain ⟨hnumeric, hrule⟩ := Bool.and_eq_true_iff.mp hrule
    exact applyOp_unitConvert_typed srcPath hnumeric hrule hvalue hrange
  | .default _ _, ty, result, value, htype, hvalue, _ => by
    obtain rfl := Option.some.inj htype
    exact ⟨value, by rw [applyOp], hvalue⟩
  | .arrayMap elementOps, .array element, result, value, htype, hvalue, hrange => by
    rw [opType] at htype
    obtain ⟨elementResult, helement, rfl⟩ := Option.map_eq_some_iff.mp htype
    obtain ⟨items, rfl, hitems⟩ := valueMatches_array_iff.mp hvalue
    rw [opInRange, List.all_eq_true] at hrange
    obtain ⟨mapped, hmapped, hresult⟩ := Except.mapM_ok fun item hitem ↦
      applyOps_typed srcPath elementOps helement (hitems item hitem) (hrange item hitem)
    refine ⟨.array mapped, ?_, valueMatches_array_iff.mpr ⟨mapped, rfl, hresult⟩⟩
    simp only [applyOp, Value.asArray, hmapped, Except.map]

/-- A value of the type a chain starts from is mapped to a value of the type it ends with. -/
theorem applyOps_typed (srcPath : String) :
    ∀ (ops : List Op) {ty result : FieldType} {value : Value}, chainType ops ty = some result →
    valueMatches ty value → inRange srcPath ops value →
    ∃ mapped, applyOps srcPath ops value = .ok mapped ∧ valueMatches result mapped
  | [], ty, result, value, htype, hvalue, _ => by
    obtain rfl := Option.some.inj htype
    exact ⟨value, by rw [applyOps], hvalue⟩
  | op :: ops, ty, result, value, htype, hvalue, hrange => by
    rw [chainType] at htype
    obtain ⟨middle, hop, hops⟩ := Option.bind_eq_some_iff.mp htype
    rw [inRange, Bool.and_eq_true_iff] at hrange
    obtain ⟨mapped, hmapped, hmiddle⟩ := applyOp_typed srcPath op hop hvalue hrange.1
    have hrest : inRange srcPath ops mapped := by simpa only [hmapped] using hrange.2
    obtain ⟨final, hfinal, hresult⟩ := applyOps_typed srcPath ops hops hmiddle hrest
    exact ⟨final, by rw [applyOps, hmapped]; exact hfinal, hresult⟩

end

end Deblob.Umbrella
