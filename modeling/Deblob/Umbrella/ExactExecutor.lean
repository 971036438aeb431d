import Deblob.Umbrella.Quantities
import Deblob.Umbrella.Typing

/-!
# The executor over any numbers

The executor reads of a value no more than its scalar type, its number and its elements, and it
computes with numbers by the table of rules alone. So it can be run on exact rationals; on 64-bit
floats it is the executor as long as the conversions stay finite.
-/

namespace Deblob.Umbrella

open Lib

variable {F : Type}

/-- What the executor reads of a value; a number that is no finite float has a type only. -/
inductive Measured (F : Type) where
  | number (ty : ScalarType) (value : F)
  | array (items : List (Measured F))
  | other (ty : Option ScalarType)

def Measured.scalarType : Measured F → Option ScalarType
  | .number ty _ => some ty
  | .array _ => none
  | .other ty => ty

section Executor

variable [OfScientific F] [Neg F] [Mul F] [Add F]

mutual

def measuredOp (srcPath : String) : Op → Measured F → Except ExecError (Measured F)
  | .cast target, value =>
    match value.scalarType with
    | none => .error (.castFailed target)
    | some ty => if ty.widensLosslesslyTo target then .ok value else .error (.castFailed target)
  | .unitConvert _ _ ruleId, .number _ value =>
    match convert value ruleId with
    | .error error => .error (.unit error)
    | .ok converted => .ok (.number .decimal converted)
  | .unitConvert _ _ _, _ => .error (.unitConvertNonNumber srcPath)
  | .default _ _, value => .ok value
  | .arrayMap elementOps, .array items =>
    (items.mapM (measuredOps srcPath elementOps)).map Measured.array
  | .arrayMap _, _ => .error (.arrayMapNonArray srcPath)

def measuredOps (srcPath : String) : List Op → Measured F → Except ExecError (Measured F)
  | [], value => .ok value
  | op :: ops, value => measuredOp srcPath op value >>= measuredOps srcPath ops

end

theorem measuredOps_append (srcPath : String) (first second : List Op) (value : Measured F) :
    measuredOps srcPath (first ++ second) value =
      measuredOps srcPath first value >>= measuredOps srcPath second := by
  induction first generalizing value with
  | nil => rfl
  | cons op first ih =>
      rw [List.cons_append, measuredOps, measuredOps, bind_assoc]
      exact congrArg _ (funext ih)

end Executor

/-! ## Floats -/

def numberType (number : Number) : ScalarType :=
  if number.isI64 || number.isU64 then .integer else .decimal

mutual

def Value.measured : Value → Measured Float
  | .number number =>
    match number.asF64 with
    | some value => .number (numberType number) value
    | none => .other (some (numberType number))
  | .array items => .array (measuredItems items)
  | .bool _ => .other (some .bool)
  | .string _ => .other (some .string)
  | .null => .other none
  | .object _ => .other none

def measuredItems : List Value → List (Measured Float)
  | [] => []
  | item :: items => item.measured :: measuredItems items

end

theorem measuredItems_eq_map (items : List Value) :
    measuredItems items = items.map Value.measured := by
  induction items with
  | nil => rfl
  | cons item items ih => rw [measuredItems, ih, List.map_cons]

theorem measured_scalarType (value : Value) :
    value.measured.scalarType = valueScalarType value := by
  cases value with
  | number number =>
      have htype : valueScalarType (.number number) = some (numberType number) := by
        rw [valueScalarType, numberType]
        split <;> rfl
      rw [htype, Value.measured]
      cases number.asF64 <;> rfl
  | _ => rfl

theorem measured_ofF64 {value : Float} (hfinite : value.isFinite) :
    (Value.ofF64 value).measured = .number .decimal value := by
  rw [Value.ofF64, dif_pos hfinite]
  rfl

theorem measuredOp_cast (srcPath : String) (target : ScalarType) (value : Value) :
    measuredOp srcPath (.cast target) value.measured =
      (applyOp srcPath (.cast target) value).map Value.measured := by
  rw [measuredOp, applyOp, measured_scalarType]
  cases valueScalarType value with
  | none => rfl
  | some ty =>
      dsimp only
      split <;> rfl

theorem measuredOp_unitConvert (srcPath : String) (source target : Unit) (ruleId : String)
    {value : Value} (hrange : opInRange srcPath (.unitConvert source target ruleId) value) :
    measuredOp srcPath (.unitConvert source target ruleId) value.measured =
      (applyOp srcPath (.unitConvert source target ruleId) value).map Value.measured := by
  cases value with
  | number number =>
      rw [opInRange] at hrange
      cases hnumber : number.asF64 with
      | none => simp [hnumber] at hrange
      | some float =>
          have hfinite := Number.isFinite_of_asF64 hnumber
          rw [hnumber] at hrange
          have hmeasured : (Value.number number).measured = .number (numberType number) float := by
            rw [Value.measured, hnumber]
          rw [hmeasured, measuredOp, applyOp, Value.asF64, hnumber]
          dsimp only
          rw [if_pos hfinite]
          cases hconvert : convert float ruleId with
          | error error => rfl
          | ok converted =>
              simp only [hconvert] at hrange
              simp only [Except.map, measured_ofF64 hrange]
  | array items => rfl
  | _ => rfl

mutual

theorem measuredOp_measured (srcPath : String) : ∀ (op : Op) {value : Value},
    opInRange srcPath op value →
    measuredOp srcPath op value.measured = (applyOp srcPath op value).map Value.measured
  | .cast target, value, _ => measuredOp_cast srcPath target value
  | .unitConvert source target ruleId, _, hrange =>
    measuredOp_unitConvert srcPath source target ruleId hrange
  | .default _ _, value, _ => by
    rw [measuredOp, applyOp]
    rfl
  | .arrayMap elementOps, value, hrange => by
    cases value with
    | array items =>
        rw [opInRange, List.all_eq_true] at hrange
        have hitems := Except.mapM_map fun item hitem ↦
          measuredOps_measured srcPath elementOps (hrange item hitem)
        rw [Value.measured, measuredItems_eq_map, measuredOp, applyOp, hitems]
        simp only [Value.asArray]
        cases items.mapM (applyOps srcPath elementOps) with
        | error error => rfl
        | ok results => simp only [Except.map, Value.measured, measuredItems_eq_map]
    | number number =>
        rw [Value.measured]
        cases number.asF64 <;> rfl
    | _ => rfl

/-- On finite floats the executor does the same as the one over any numbers. -/
theorem measuredOps_measured (srcPath : String) : ∀ (ops : List Op) {value : Value},
    inRange srcPath ops value →
    measuredOps srcPath ops value.measured = (applyOps srcPath ops value).map Value.measured
  | [], value, _ => by
    rw [measuredOps, applyOps]
    rfl
  | op :: ops, value, hrange => by
    rw [inRange, Bool.and_eq_true_iff] at hrange
    rw [measuredOps, applyOps, measuredOp_measured srcPath op hrange.1]
    cases hmapped : applyOp srcPath op value with
    | error error => rfl
    | ok mapped =>
        rw [hmapped] at hrange
        exact measuredOps_measured srcPath ops hrange.2

end

end Deblob.Umbrella
