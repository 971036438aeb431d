import Deblob.Core.Identity
import Deblob.Lib.Groups
import Deblob.Umbrella.Verify
import Mathlib.Data.List.Destutter
import Mathlib.Data.Prod.Lex
import Mathlib.Data.String.Basic

/-!
# Alignment by canonical field id

Schemas with one typed signature become members of a gold umbrella, which has a required scalar
field for every canonical field id of the signature. A member's fields are paired with the gold
fields of their id, an adjudicator names the relation of each pair, and the pairs that may be bound
are bound in order, if neither the source nor the target was bound before.
-/

namespace Deblob.Umbrella

open Core Lib

/-- A child field with its silver annotation. -/
structure AnnotatedField extends ChildField where
  canonicalFieldId : Option String

/-- A field of a gold contract with its identity. -/
structure GoldField extends UmbrellaField where
  canonicalFieldId : String

def goldSchema (umbrella : List GoldField) : UmbrellaSchema :=
  ⟨umbrella.map (·.toUmbrellaField)⟩

/-! ## Typed signatures -/

/-- The name of a scalar type as `Debug` prints it. -/
def ScalarType.debug : ScalarType → String
  | .bool => "Bool"
  | .integer => "Integer"
  | .decimal => "Decimal"
  | .string => "String"

def fieldTypeTag (field : ChildField) : String :=
  if field.isArray then "array<" ++ field.ty.debug ++ ">" else field.ty.debug

/-- The canonical id of an annotated field with its type tag. -/
def fieldSig (field : AnnotatedField) : Option (String × String) :=
  field.canonicalFieldId.map fun id ↦ (id, fieldTypeTag field.toChildField)

/-- The key that schemas are grouped by. -/
def typedSignature (fields : List AnnotatedField) : List (String × String) :=
  (sortOn toLex (fields.filterMap fieldSig)).destutter (· ≠ ·)

/-- Equal entries are neighbours when they are sorted, so that none is left twice. -/
theorem typedSignature_eq_dedup (fields : List AnnotatedField) :
    typedSignature fields = (sortOn toLex (fields.filterMap fieldSig)).dedup := by
  have : Std.Antisymm fun left right : String × String ↦ toLex left ≤ toLex right :=
    ⟨fun left right hle hge ↦ toLex.injective (hle.antisymm hge)⟩
  exact (pairwise_sortOn toLex _).destutter_eq_dedup

theorem nodup_typedSignature (fields : List AnnotatedField) : (typedSignature fields).Nodup := by
  rw [typedSignature_eq_dedup]
  exact List.nodup_dedup _

theorem mem_typedSignature {fields : List AnnotatedField} {sig : String × String} :
    sig ∈ typedSignature fields ↔ ∃ field ∈ fields, fieldSig field = some sig := by
  rw [typedSignature_eq_dedup, List.mem_dedup, mem_sortOn, List.mem_filterMap]

/-! ## The gold umbrella -/

structure PathParseError where
  text : String
deriving DecidableEq

/-- Read `$.key.key…`. -/
def JsonPath.parse (text : String) : Except PathParseError JsonPath :=
  match stripPrefix "$." text with
  | none => .error ⟨text⟩
  | some rest =>
    if rest = "" ∨ [] ∈ rest.toList.splitOn '.' then .error ⟨text⟩
    else .ok ⟨(rest.toList.splitOn '.').map String.ofList, by simp [List.splitOn_ne_nil]⟩

/-- A key names a path if it has only nonempty segments. -/
def IsPathKey (key : String) : Prop :=
  key ≠ "" ∧ [] ∉ key.toList.splitOn '.'

instance (key : String) : Decidable (IsPathKey key) :=
  inferInstanceAs (Decidable (_ ∧ _))

theorem JsonPath.parse_append (key : String) :
    JsonPath.parse ("$." ++ key) =
      if IsPathKey key then
        .ok ⟨(key.toList.splitOn '.').map String.ofList, by simp [List.splitOn_ne_nil]⟩
      else .error ⟨"$." ++ key⟩ := by
  rw [JsonPath.parse, stripPrefix_append]
  dsimp only
  by_cases hkey : IsPathKey key
  · rw [if_pos hkey, if_neg (not_or.mpr hkey)]
  · rw [if_neg hkey, if_pos (by rwa [IsPathKey, ← not_or, not_not] at hkey)]

/-- A canonical id without its prefix. -/
def goldKey (canonicalFieldId : String) : String :=
  ((stripPrefix "cfid_" canonicalFieldId).or (stripPrefix "cfid." canonicalFieldId)).getD
    canonicalFieldId

/-- The path named after a position. -/
def positionPath (index : ℕ) : JsonPath :=
  ⟨["f" ++ toString index], List.cons_ne_nil _ _⟩

theorem toList_position (index : ℕ) :
    ("f" ++ toString index).toList = 'f' :: Nat.toDigits 10 index := by
  simp [Nat.toString_eq_repr]

theorem dot_notMem_position (index : ℕ) : '.' ∉ ("f" ++ toString index).toList := by
  rw [toList_position, List.mem_cons]
  rintro (heq | hmem)
  · cases heq
  · have hdigit := Nat.isDigit_of_mem_toDigits (b := 10) (by decide) (by decide) hmem
    cases hdigit

theorem parse_positionPath (index : ℕ) :
    JsonPath.parse ("$." ++ ("f" ++ toString index)) = .ok (positionPath index) := by
  have hne : "f" ++ toString index ≠ "" := by
    intro heq
    have htext := toList_position index
    rw [heq] at htext
    cases htext
  have hsegment : [] ≠ ("f" ++ toString index).toList := by
    rw [toList_position]
    exact (List.cons_ne_nil _ _).symm
  simp only [JsonPath.parse, stripPrefix_append, List.splitOn_eq_singleton (dot_notMem_position index),
    List.mem_singleton, hne, hsegment, or_self, if_false, List.map_singleton, String.ofList_toList,
    positionPath]

/-- The path of the gold field at a position; a key that is no path gives way to the position. -/
def goldPath (index : ℕ) (canonicalFieldId : String) : JsonPath :=
  match JsonPath.parse ("$." ++ goldKey canonicalFieldId) with
  | .ok path => path
  | .error _ => positionPath index

/-- The field that a gold field takes its type and unit from. -/
def contributor (members : List (List AnnotatedField)) (canonicalFieldId : String) :
    Option AnnotatedField :=
  members.flatten.find? fun field ↦ field.canonicalFieldId = some canonicalFieldId

def goldField (members : List (List AnnotatedField)) (canonicalFieldId : String) (index : ℕ) :
    GoldField where
  path := goldPath index canonicalFieldId
  ty := .scalar (((contributor members canonicalFieldId).map (·.ty)).getD .string)
  unit := (contributor members canonicalFieldId).bind (·.unit)
  cardinality := .required
  canonicalFieldId := canonicalFieldId

@[simp]
theorem goldField_path (members : List (List AnnotatedField)) (canonicalFieldId : String)
    (index : ℕ) :
    (goldField members canonicalFieldId index).path = goldPath index canonicalFieldId := rfl

def buildUmbrella (cfids : List String) (members : List (List AnnotatedField)) : List GoldField :=
  cfids.zipIdx.map fun (id, index) ↦ goldField members id index

/-! ## Candidate pairs -/

/-- How a child field's unit relates to a gold field's unit. -/
inductive UnitRelation where
  | noUnits
  | same
  | convertible (ruleId : String)
  | incompatible
deriving DecidableEq

def findRule (source target : Unit) : Option (ConversionRule Float) :=
  rules.find? fun rule ↦ rule.fromCode = source.code ∧ rule.toCode = target.code

def unitRelation : Option Unit → Option Unit → UnitRelation
  | none, none => .noUnits
  | some child, some gold =>
    if child = gold then .same
    else
      match findRule child gold with
      | some rule => .convertible rule.ruleId
      | none => .incompatible
  | _, _ => .incompatible

structure PairEvidence where
  canonicalIdMatch : Bool
  typeLossless : Bool
  unit : UnitRelation

structure CandidatePair where
  child : AnnotatedField
  umbrellaField : GoldField
  evidence : PairEvidence

def candidatePair (child : AnnotatedField) (field : GoldField) : CandidatePair where
  child := child
  umbrellaField := field
  evidence :=
    { canonicalIdMatch := true
      typeLossless := (umbrellaScalar field.toUmbrellaField).any child.ty.widensLosslesslyTo
      unit := unitRelation child.unit field.unit }

/-- The pairs with one canonical id, by child fields and then by gold fields. -/
def enumerate (childFields : List AnnotatedField) (umbrella : List GoldField) :
    List CandidatePair :=
  childFields.flatMap fun child ↦
    match child.canonicalFieldId with
    | none => []
    | some id => (umbrella.filter (·.canonicalFieldId = id)).map (candidatePair child)

/-! ## Adjudication -/

inductive Relation where
  | exactEquivalent
  | sameQuantityDifferentUnit
  | narrower
  | broader
  | related
  | disjoint
  | unknown
deriving DecidableEq

def Relation.autoBindable (relation : Relation) : Bool :=
  relation = .exactEquivalent || relation = .sameQuantityDifferentUnit

/-- The adjudicator that decides from hard evidence alone. -/
def deterministicAnchor (pair : CandidatePair) : Relation :=
  if !pair.evidence.canonicalIdMatch then .unknown
  else
    match pair.evidence.unit with
    | .noUnits | .same => if pair.evidence.typeLossless then .exactEquivalent else .unknown
    | .convertible _ => .sameQuantityDifferentUnit
    | .incompatible => .unknown

/-! ## Assembly -/

/-- A transform with the source paths that it leaves alone. -/
structure AssembledTransform extends ChildTransform where
  unmappedSourcePaths : List JsonPath

def CandidatePair.castOps (pair : CandidatePair) : List Op :=
  match umbrellaScalar pair.umbrellaField.toUmbrellaField with
  | some want =>
    if pair.child.ty ≠ want ∧ pair.child.ty.widensLosslesslyTo want then [.cast want] else []
  | none => []

def CandidatePair.unitOps (pair : CandidatePair) : List Op :=
  match pair.evidence.unit with
  | .convertible ruleId =>
    match pair.child.unit, pair.umbrellaField.unit with
    | some source, some target => [.unitConvert source target ruleId]
    | _, _ => []
  | _ => []

/-- The binding made for a pair. -/
def CandidatePair.binding (pair : CandidatePair) : Binding where
  source := pair.child.path
  target := pair.umbrellaField.path
  ops := pair.castOps ++ pair.unitOps
  onMissing := if pair.umbrellaField.cardinality = .required then .reject else .omitted

/-- The bindings made so far and their sources. -/
structure Assembly where
  bindings : List Binding
  boundChildren : List JsonPath

/-- One turn of the loop over the candidate pairs. -/
def bindPair (adjudicate : CandidatePair → Relation) (assembly : Assembly) (pair : CandidatePair) :
    Assembly :=
  if !(adjudicate pair).autoBindable then assembly
  else if pair.child.path ∈ assembly.boundChildren then assembly
  else if assembly.bindings.any fun binding ↦ binding.target = pair.umbrellaField.path then assembly
  else ⟨assembly.bindings ++ [pair.binding], pair.child.path :: assembly.boundChildren⟩

def assembleTransform (umbrella : List GoldField) (childFields : List AnnotatedField)
    (adjudicate : CandidatePair → Relation) : AssembledTransform :=
  let assembly := (enumerate childFields umbrella).foldl (bindPair adjudicate) ⟨[], []⟩
  { bindings := assembly.bindings
    unmappedSourcePaths :=
      (childFields.filter fun child ↦ child.path ∉ assembly.boundChildren).map (·.path) }

end Deblob.Umbrella
