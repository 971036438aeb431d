import Deblob.Umbrella.Path
import Deblob.Umbrella.Units

/-!
# The executor

A transform is applied to one event: each binding reads its source, runs its operators and writes
its target. The first failure rejects the whole event.
-/

namespace Deblob.Umbrella

inductive ExecError where
  | missingSource (source : String)
  | noDefault (source : String)
  | castFailed (target : ScalarType)
  | unitConvertNonNumber (source : String)
  | arrayMapNonArray (source : String)
  | unit (error : UnitError)
  | set (error : PathSetError)
  | nonFiniteNumber (source : String)
deriving DecidableEq

/-- The scalar type of a value; the text of a number decides. -/
def valueScalarType : Value → Option ScalarType
  | .bool _ => some .bool
  | .string _ => some .string
  | .number number => if number.isI64 || number.isU64 then some .integer else some .decimal
  | _ => none

mutual

def applyOp (srcPath : String) : Op → Value → Except ExecError Value
  | .cast target, value =>
    match valueScalarType value with
    | none => .error (.castFailed target)
    | some ty => if ty.widensLosslesslyTo target then .ok value else .error (.castFailed target)
  | .unitConvert _ _ ruleId, value =>
    match value.asF64 with
    | none => .error (.unitConvertNonNumber srcPath)
    | some number =>
      if number.isFinite then
        match convert number ruleId with
        | .error error => .error (.unit error)
        | .ok converted => .ok (.ofF64 converted)
      else .error (.nonFiniteNumber srcPath)
  | .default _ _, value => .ok value
  | .arrayMap elementOps, value =>
    match value.asArray with
    | none => .error (.arrayMapNonArray srcPath)
    | some items => (items.mapM (applyOps srcPath elementOps)).map Value.array

def applyOps (srcPath : String) : List Op → Value → Except ExecError Value
  | [], value => .ok value
  | op :: ops, value => applyOp srcPath op value >>= applyOps srcPath ops

end

def defaultValue (binding : Binding) : Option Value :=
  binding.ops.findSome? fun
    | .default value _ => some value
    | _ => none

def applyBinding (childEvent out : Value) (binding : Binding) : Except ExecError Value :=
  match childEvent.get binding.source with
  | some value => do
    let mapped ← applyOps binding.source.toString binding.ops value
    (out.set binding.target mapped).mapError .set
  | none =>
    match binding.onMissing with
    | .omitted => .ok out
    | .reject => .error (.missingSource binding.source.toString)
    | .useDefault =>
      match defaultValue binding with
      | none => .error (.noDefault binding.source.toString)
      | some value => (out.set binding.target value).mapError .set

/-- Apply a transform to a child event, which gives a gold event. -/
def apply (transform : ChildTransform) (childEvent : Value) : Except ExecError Value :=
  transform.bindings.foldlM (applyBinding childEvent) (.object [])

end Deblob.Umbrella
