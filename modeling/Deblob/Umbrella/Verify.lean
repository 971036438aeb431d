import Deblob.Umbrella.Executor

/-!
# Static verification

A transform bundle is checked against the child's fields and the gold contract without data. An
emitted event is checked against the contract by `validateGold`.
-/

namespace Deblob.Umbrella

/-- A leaf field of the child schema; an array has the type of its elements. -/
structure ChildField where
  path : JsonPath
  ty : ScalarType
  unit : Option Unit
  isArray : Bool

/-- What is wrong with a unit operator; the source formats it as a text. -/
inductive UnitOpReason where
  | childUnit (found : Option Unit) (source : Unit)
  | conversion (error : UnitError)
  | finalUnit (found wanted : Option Unit)
deriving DecidableEq

inductive VerifyIssue where
  | sourceMissing (source : String)
  | unknownTarget (target : String)
  | duplicateTarget (target : String)
  | requiredNotTotal (target : String)
  | omitOnRequired (target : String)
  | lossyCast (target : String) (source final : ScalarType)
  | typeMismatch (target : String) (got want : ScalarType)
  | badUnitOp (target : String) (reason : UnitOpReason)
  | syntheticSatisfiesRequired (target : String)
deriving DecidableEq

/-! ## Op chains -/

/-- Only a synthetic default gives the binding's value. -/
def isSyntheticOnly (binding : Binding) : Bool :=
  binding.onMissing = .useDefault &&
    (binding.ops.any fun
      | .default _ synthetic => synthetic
      | _ => false) &&
    binding.ops.all fun
      | .default _ _ => true
      | _ => false

def umbrellaScalar (field : UmbrellaField) : Option ScalarType :=
  match field.ty with
  | .scalar ty => some ty
  | .array _ => none

/-- The issues of a scalar chain, and the type and unit it ends with. -/
def foldOps (target : String) :
    ScalarType → Option Unit → List Op → List VerifyIssue × ScalarType × Option Unit
  | ty, unit, [] => ([], ty, unit)
  | ty, unit, .cast castTo :: ops =>
    let issues := if ty.widensLosslesslyTo castTo then [] else [.lossyCast target ty castTo]
    let rest := foldOps target castTo unit ops
    (issues ++ rest.1, rest.2)
  | _, unit, .unitConvert source converted ruleId :: ops =>
    let unitIssues :=
      if unit = some source then [] else [.badUnitOp target (.childUnit unit source)]
    let ruleIssues := match verifyConversion source converted ruleId with
      | .ok _ => []
      | .error error => [.badUnitOp target (.conversion error)]
    let rest := foldOps target .decimal (some converted) ops
    (unitIssues ++ ruleIssues ++ rest.1, rest.2)
  | ty, unit, .default _ _ :: ops => foldOps target ty unit ops
  | ty, unit, .arrayMap _ :: ops => foldOps target ty unit ops

def checkOpChain (child : ChildField) (field : UmbrellaField) (binding : Binding)
    (target : String) : List VerifyIssue :=
  if isSyntheticOnly binding then
    if field.cardinality = .required then [.syntheticSatisfiesRequired target] else []
  else if child.isArray || (umbrellaScalar field).isNone then
    -- the elements of arrays are not typed here
    if child.isArray && (umbrellaScalar field).isNone then []
    else [.typeMismatch target child.ty ((umbrellaScalar field).getD child.ty)]
  else
    let (issues, ty, unit) := foldOps target child.ty child.unit binding.ops
    issues ++
      (match umbrellaScalar field with
        | some want => if ty.widensLosslesslyTo want then [] else [.typeMismatch target ty want]
        | none => []) ++
      if field.unit.isSome && unit ≠ field.unit then
        [.badUnitOp target (.finalUnit unit field.unit)]
      else []

/-! ## Bundles -/

/-- The issues of one binding, behind bindings that took the targets `targeted`. -/
def checkBinding (umbrella : UmbrellaSchema) (childFields : List ChildField)
    (targeted : List JsonPath) (binding : Binding) : List VerifyIssue :=
  let target := binding.target.toString
  let child := childFields.find? fun field ↦ field.path = binding.source
  (if child.isNone then [.sourceMissing binding.source.toString] else []) ++
    match umbrella.field binding.target with
    | none => [.unknownTarget target]
    | some field =>
      (if binding.target ∈ targeted then [.duplicateTarget target] else []) ++
        (if binding.onMissing = .omitted ∧ field.cardinality = .required then
          [.omitOnRequired target] else []) ++
        match child with
        | some child => checkOpChain child field binding target
        | none => []

def checkBindings (umbrella : UmbrellaSchema) (childFields : List ChildField) :
    List JsonPath → List Binding → List VerifyIssue
  | _, [] => []
  | targeted, binding :: bindings =>
    checkBinding umbrella childFields targeted binding ++
      checkBindings umbrella childFields
        (if (umbrella.field binding.target).isSome then binding.target :: targeted else targeted)
        bindings

/-- Some binding always gives the field a value that comes from the source. -/
def isTotal (transform : ChildTransform) (field : UmbrellaField) : Bool :=
  transform.bindings.any fun binding ↦
    binding.target = field.path && binding.onMissing ≠ .omitted && !isSyntheticOnly binding

def verifyStatic (transform : ChildTransform) (umbrella : UmbrellaSchema)
    (childFields : List ChildField) : List VerifyIssue :=
  checkBindings umbrella childFields [] transform.bindings ++
    umbrella.fields.flatMap fun field ↦
      if field.cardinality = .required ∧ ¬ isTotal transform field then
        [.requiredNotTotal field.path.toString]
      else []

/-! ## Gold events -/

/-- Does a value satisfy a field type? -/
def valueMatches : FieldType → Value → Bool
  | .scalar want, value => (valueScalarType value).any fun got ↦ got.widensLosslesslyTo want
  | .array element, value => value.asArray.any fun items ↦ items.all (valueMatches element)

/-- The complaints about one emitted event. -/
def validateGold (umbrella : UmbrellaSchema) (event : Value) : List String :=
  umbrella.fields.flatMap fun field ↦
    match event.get field.path with
    | none =>
      if field.cardinality = .required then ["required field " ++ field.path.toString ++ " missing"]
      else []
    | some value =>
      if valueMatches field.ty value then []
      else ["field " ++ field.path.toString ++ " has wrong type"]

end Deblob.Umbrella
