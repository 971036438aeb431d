import Deblob.Core.NumberText

/-!
# The umbrella data model

Events, scalar and field types, restricted paths, the closed operator set and the transforms built
from it. A gold contract lists fields by path; a transform binds source paths to them.
-/

namespace Deblob.Umbrella

open Core

/-! ## Events -/

/-- A number as it was written, or one made from a float, whose text always has a point or an
exponent and reads back as the float. -/
inductive Number where
  | literal (text : String)
  | float (value : Float) (finite : value.isFinite)

def Number.isI64 : Number → Bool
  | .literal text => isI64Text text
  | .float _ _ => false

def Number.isU64 : Number → Bool
  | .literal text => isU64Text text
  | .float _ _ => false

def Number.asF64 : Number → Option Float
  | .literal text => (parseF64 text).filter Float.isFinite
  | .float value _ => some value

theorem Number.isFinite_of_asF64 {number : Number} {value : Float}
    (hvalue : number.asF64 = some value) : value.isFinite := by
  cases number with
  | literal text => exact (Option.filter_eq_some_iff.mp hvalue).2
  | float _ finite => exact Option.some.inj hvalue ▸ finite

/-- A JSON value; the entries of an object are sorted by key. -/
inductive Value where
  | null
  | bool (value : Bool)
  | number (value : Number)
  | string (text : String)
  | array (items : List Value)
  | object (entries : List (String × Value))

def Value.isObject : Value → Bool
  | .object _ => true
  | _ => false

def Value.asArray : Value → Option (List Value)
  | .array items => some items
  | _ => none

def Value.asF64 : Value → Option Float
  | .number value => value.asF64
  | _ => none

/-- Floats that are not finite have no JSON text. -/
def Value.ofF64 (value : Float) : Value :=
  if finite : value.isFinite then .number (.float value finite) else .null

/-! ## Types and units -/

/-- The scalar types of gold fields. -/
inductive ScalarType where
  | bool
  | integer
  | decimal
  | string
deriving DecidableEq

/-- Identity, or integer to decimal. -/
def ScalarType.widensLosslesslyTo (self target : ScalarType) : Bool :=
  self = target || (self = .integer && target = .decimal)

@[simp]
theorem ScalarType.widensLosslesslyTo_refl (ty : ScalarType) : ty.widensLosslesslyTo ty := by
  simp [ScalarType.widensLosslesslyTo]

theorem ScalarType.widensLosslesslyTo_trans {first second third : ScalarType}
    (hfirst : first.widensLosslesslyTo second) (hsecond : second.widensLosslesslyTo third) :
    first.widensLosslesslyTo third := by
  cases first <;> cases second <;> cases third <;> first | rfl | contradiction

inductive FieldType where
  | scalar (ty : ScalarType)
  | array (element : FieldType)
deriving DecidableEq

inductive Cardinality where
  | required
  | optional
deriving DecidableEq

inductive UnitSystem where
  | ucum
  | iso4217
  | registered
deriving DecidableEq

structure Unit where
  system : UnitSystem
  code : String
deriving DecidableEq

/-! ## Paths -/

/-- Object keys only; a parsed path has at least one. -/
structure JsonPath where
  segments : List String
  nonempty : segments ≠ []
deriving DecidableEq

def key (name : String) : JsonPath := ⟨[name], List.cons_ne_nil _ _⟩

def JsonPath.toString (path : JsonPath) : String :=
  path.segments.foldl (fun text segment ↦ text ++ "." ++ segment) "$"

/-! ## Contracts and transforms -/

structure UmbrellaField where
  path : JsonPath
  ty : FieldType
  unit : Option Unit
  cardinality : Cardinality
deriving DecidableEq

/-- A gold event contract. -/
structure UmbrellaSchema where
  fields : List UmbrellaField

def UmbrellaSchema.field (umbrella : UmbrellaSchema) (path : JsonPath) : Option UmbrellaField :=
  umbrella.fields.find? fun field ↦ field.path = path

/-- The closed operator set; the only cast mode is the lossless one. -/
inductive Op where
  | cast (target : ScalarType)
  | unitConvert (source target : Unit) (ruleId : String)
  | default (value : Value) (synthetic : Bool)
  | arrayMap (elementOps : List Op)

/-- What to do when the source path of a binding is absent. -/
inductive OnMissing where
  | omitted
  | reject
  | useDefault
deriving DecidableEq

structure Binding where
  source : JsonPath
  target : JsonPath
  ops : List Op
  onMissing : OnMissing

structure ChildTransform where
  bindings : List Binding

end Deblob.Umbrella
