import Deblob.Fingerprint.Canon
import Deblob.Monoid.Profile
import Deblob.Semantic.JsonText
import Deblob.Semantic.Types
import Mathlib.Data.Finset.Insert
import Mathlib.Data.List.AList

/-!
# Typed field paths and structural relations

Both grammars of canonical forms are walked for the types at every path. Of two shapes at one path
the first one stays. Two schemas are related by what changed at the paths they share.
-/

namespace Deblob.Semantic

open Core Lib Fingerprint Deblob.Monoid
open Umbrella (Value)

inductive ShapeWalkError where
  | invalidJson (message : String)
  | malformedShape
  | malformedMonoidField
  | unknownCanonicalizer (name : String)
deriving DecidableEq

inductive ShapeType where
  | null
  | bool
  | num
  | str
  | obj
  | arr
deriving DecidableEq

/-- What is known about a path: its types, and whether nothing is below it. -/
structure PathShape where
  isLeaf : Bool
  types : Finset ShapeType
deriving DecidableEq

abbrev TypedPaths := AList fun _ : List PathSegment ↦ PathShape

/-- `entry().or_insert()`: a shape that is there stays. -/
def orInsert (path : List PathSegment) (shape : PathShape) (out : TypedPaths) : TypedPaths :=
  if path ∈ out then out else out.insert path shape

/-! ## Shapes -/

def leafType (tag : String) : Option ShapeType :=
  if tag = "null" then some .null
  else if tag = "bool" then some .bool
  else if tag = "num" then some .num
  else if tag = "str" then some .str
  else none

def childShapeOf (tag : String) : Except ShapeWalkError PathShape :=
  match leafType tag with
  | some leaf => .ok ⟨true, {leaf}⟩
  | none =>
    if tag = "obj" then .ok ⟨false, {.obj}⟩
    else if tag = "arr" then .ok ⟨false, {.arr}⟩
    else .error .malformedShape

def nodeType : Value → Except ShapeWalkError String
  | .object entries =>
    match getEntry entries "t" with
    | some (.string tag) => .ok tag
    | _ => .error .malformedShape
  | _ => .error .malformedShape

mutual

def walkTyped : Value → List PathSegment → TypedPaths → Except ShapeWalkError TypedPaths
  | .object entries, current, out =>
    match getEntry entries "t" with
    | some (.string tag) =>
      if tag ∈ ["null", "bool", "num", "str"] then .ok out
      else if tag = "obj" then walkTypedFieldsOf entries current out
      else if tag = "arr" then walkTypedElementsOf entries current out
      else .error .malformedShape
    | _ => .error .malformedShape
  | _, _, _ => .error .malformedShape

/-- The members of the object under `f`. -/
def walkTypedFieldsOf :
    List (String × Value) → List PathSegment → TypedPaths → Except ShapeWalkError TypedPaths
  | [], _, _ => .error .malformedShape
  | (name, value) :: entries, current, out =>
    if name = "f" then
      match value with
      | .object fields => walkTypedFields fields current out
      | _ => .error .malformedShape
    else walkTypedFieldsOf entries current out

def walkTypedFields :
    List (String × Value) → List PathSegment → TypedPaths → Except ShapeWalkError TypedPaths
  | [], _, out => .ok out
  | (key, value) :: fields, current, out => do
    let tag ← nodeType value
    let shape ← childShapeOf tag
    let out ← walkTyped value (current ++ [.key key]) (orInsert (current ++ [.key key]) shape out)
    walkTypedFields fields current out

/-- The elements of the array under `of`, which share one segment. -/
def walkTypedElementsOf :
    List (String × Value) → List PathSegment → TypedPaths → Except ShapeWalkError TypedPaths
  | [], _, _ => .error .malformedShape
  | (name, value) :: entries, current, out =>
    if name = "of" then
      match value with
      | .array elements => walkTypedElements elements (current ++ [.wildcard]) out
      | _ => .error .malformedShape
    else walkTypedElementsOf entries current out

def walkTypedElements :
    List Value → List PathSegment → TypedPaths → Except ShapeWalkError TypedPaths
  | [], _, out => .ok out
  | element :: elements, current, out => do
    let tag ← nodeType element
    let shape ← childShapeOf tag
    let out ← walkTyped element current (orInsert current shape out)
    walkTypedElements elements current out

end

/-! ## Generalized fields -/

def monoidTagToShapeType (tag : String) : Except ShapeWalkError ShapeType :=
  if tag = "null" then .ok .null
  else if tag = "bool" then .ok .bool
  else if tag = "number" then .ok .num
  else if tag = "string" then .ok .str
  else if tag = "object" then .ok .obj
  else if tag = "array" then .ok .arr
  else .error .malformedMonoidField

/-- One entry after the other is added to the types. -/
def monoidTypes (types : Finset ShapeType) : List Value → Except ShapeWalkError (Finset ShapeType)
  | [] => .ok types
  | .string tag :: tags => do
    let shapeType ← monoidTagToShapeType tag
    monoidTypes (insert shapeType types) tags
  | _ :: _ => .error .malformedMonoidField

def monoidPathShape : Value → Except ShapeWalkError PathShape
  | .object entries =>
    match getEntry entries "types" with
    | some (.array tags) => do
      let types ← monoidTypes ∅ tags
      return ⟨(getEntry entries "children").isNone && (getEntry entries "elem").isNone, types⟩
    | _ => .error .malformedMonoidField
  | _ => .error .malformedMonoidField

mutual

/-- Both members are walked if they are there. -/
def walkTypedMonoid : Value → List PathSegment → TypedPaths → Except ShapeWalkError TypedPaths
  | .object entries, current, out => do
    let out ← walkTypedChildrenOf entries current out
    walkTypedElemOf entries current out
  | _, _, _ => .error .malformedMonoidField

def walkTypedChildrenOf :
    List (String × Value) → List PathSegment → TypedPaths → Except ShapeWalkError TypedPaths
  | [], _, out => .ok out
  | (name, value) :: entries, current, out =>
    if name = "children" then
      match value with
      | .object children => walkTypedChildren children current out
      | _ => .error .malformedMonoidField
    else walkTypedChildrenOf entries current out

def walkTypedChildren :
    List (String × Value) → List PathSegment → TypedPaths → Except ShapeWalkError TypedPaths
  | [], _, out => .ok out
  | (key, value) :: children, current, out => do
    let shape ← monoidPathShape value
    let out ← walkTypedMonoid value (current ++ [.key key])
      (orInsert (current ++ [.key key]) shape out)
    walkTypedChildren children current out

def walkTypedElemOf :
    List (String × Value) → List PathSegment → TypedPaths → Except ShapeWalkError TypedPaths
  | [], _, out => .ok out
  | (name, value) :: entries, current, out =>
    if name = "elem" then do
      let shape ← monoidPathShape value
      walkTypedMonoid value (current ++ [.wildcard]) (orInsert (current ++ [.wildcard]) shape out)
    else walkTypedElemOf entries current out

end

/-! ## The relation of two schemas -/

inductive StructuralRelation where
  | compatible
  | identicalPathsChangedTypes
  | incompatible
deriving DecidableEq

/-- What the typed paths of two schemas say: first whether a shared path changed, then whether the
paths are the same. -/
def relationOf (left right : TypedPaths) : StructuralRelation :=
  let anyTypeMismatch := left.entries.any fun entry ↦
    (right.lookup entry.1).any fun shape ↦ decide (entry.2 ≠ shape)
  if !anyTypeMismatch then .compatible
  else if left.keys.toFinset = right.keys.toFinset then .identicalPathsChangedTypes
  else .incompatible

section

variable (fromStr : Bytes → Except String Value)

def typedPaths (canonical : Bytes) : Except ShapeWalkError TypedPaths := do
  let value ← (fromStr canonical).mapError .invalidJson
  walkTyped value [] ∅

def typedPathsMonoid (canonical : Bytes) : Except ShapeWalkError TypedPaths := do
  let value ← (fromStr canonical).mapError .invalidJson
  walkTypedMonoid value [] ∅

/-- The grammar is named by the canonicalizer of the record. -/
def typedPathsFor (name : String) (canonical : Bytes) : Except ShapeWalkError TypedPaths :=
  if name = canonicalizer then typedPaths fromStr canonical
  else if name = generalizer then typedPathsMonoid fromStr canonical
  else .error (.unknownCanonicalizer name)

def leafFieldCount (name : String) (canonical : Bytes) : Except ShapeWalkError ℕ := do
  let shapes ← typedPathsFor fromStr name canonical
  return (shapes.entries.filter fun entry ↦ entry.2.isLeaf).length

def structuralRelation (leftName : String) (left : Bytes) (rightName : String) (right : Bytes) :
    Except ShapeWalkError StructuralRelation := do
  let leftTypes ← typedPathsFor fromStr leftName left
  let rightTypes ← typedPathsFor fromStr rightName right
  return relationOf leftTypes rightTypes

end

/-! ## Equal relations -/

theorem lookup_orInsert (path other : List PathSegment) (shape : PathShape) (out : TypedPaths) :
    (orInsert path shape out).lookup other =
      if other = path then (out.lookup other).or (some shape) else out.lookup other := by
  unfold orInsert
  split_ifs with hmem heq heq
  · subst heq
    rw [← AList.lookup_isSome] at hmem
    rw [Option.or_of_isSome hmem]
  · rfl
  · subst heq
    rw [AList.lookup_insert, AList.lookup_eq_none.mpr hmem, Option.none_or]
  · exact AList.lookup_insert_ne heq

/-- A shared path changed. -/
theorem anyTypeMismatch_iff {left right : TypedPaths} :
    (left.entries.any fun entry ↦ (right.lookup entry.1).any fun shape ↦
        decide (entry.2 ≠ shape)) = true ↔
      ∃ path ∈ left, path ∈ right ∧ left.lookup path ≠ right.lookup path := by
  simp only [List.any_eq_true, Option.any_eq_true, decide_eq_true_eq]
  constructor
  · rintro ⟨⟨path, shape⟩, hentry, other, hother, hne⟩
    have hshape := AList.mem_lookup_iff.mpr hentry
    refine ⟨path, AList.lookup_isSome.mp (Option.isSome_of_mem hshape),
      AList.lookup_isSome.mp (Option.isSome_of_mem hother), fun heq ↦ hne ?_⟩
    exact Option.mem_unique hshape (heq ▸ hother)
  · rintro ⟨path, hleft, hright, hne⟩
    rcases Option.isSome_iff_exists.mp (AList.lookup_isSome.mpr hleft) with ⟨shape, hshape⟩
    rcases Option.isSome_iff_exists.mp (AList.lookup_isSome.mpr hright) with ⟨other, hother⟩
    refine ⟨⟨path, shape⟩, AList.mem_lookup_iff.mp hshape, other, hother, fun heq ↦ hne ?_⟩
    rw [hshape, hother]
    exact congrArg some heq

/-- No shared path changed. -/
def Agree (left right : TypedPaths) : Prop :=
  ∀ path ∈ left, path ∈ right → left.lookup path = right.lookup path

theorem relationOf_spec (left right : TypedPaths) :
    (relationOf left right = .compatible ↔ Agree left right) ∧
      (relationOf left right = .identicalPathsChangedTypes ↔
        ¬ Agree left right ∧ ∀ path, path ∈ left ↔ path ∈ right) := by
  have hmismatch : (left.entries.any fun entry ↦ (right.lookup entry.1).any fun shape ↦
      decide (entry.2 ≠ shape)) = true ↔ ¬ Agree left right := by
    rw [anyTypeMismatch_iff]
    unfold Agree
    push Not
    rfl
  have hkeys : left.keys.toFinset = right.keys.toFinset ↔ ∀ path, path ∈ left ↔ path ∈ right := by
    simp only [Finset.ext_iff, List.mem_toFinset, ← AList.mem_keys]
  unfold relationOf
  dsimp only
  split_ifs with hnone hsame
  · rw [Bool.not_eq_true', ← Bool.not_eq_true, hmismatch, not_not] at hnone
    simp [hnone]
  · rw [Bool.not_eq_true', Bool.not_eq_false, hmismatch] at hnone
    simp [hnone, hkeys.mp hsame]
  · rw [Bool.not_eq_true', Bool.not_eq_false, hmismatch] at hnone
    rw [hkeys] at hsame
    simp [hnone, hsame]

theorem relationOf_eq_of_iff {left right left' right' : TypedPaths}
    (hagree : Agree left right ↔ Agree left' right')
    (hpaths : (∀ path, path ∈ left ↔ path ∈ right) ↔ ∀ path, path ∈ left' ↔ path ∈ right') :
    relationOf left right = relationOf left' right' := by
  have hspec := relationOf_spec left right
  have hspec' := relationOf_spec left' right'
  rw [hagree, hpaths] at hspec
  cases hrelation : relationOf left right <;> cases hrelation' : relationOf left' right' <;>
    simp_all

/-- The relation depends on which paths there are and on which of the shared ones changed. -/
theorem relationOf_congr {left right left' right' : TypedPaths}
    (hleft : ∀ path, path ∈ left ↔ path ∈ left') (hright : ∀ path, path ∈ right ↔ path ∈ right')
    (hshared : ∀ path, path ∈ left → path ∈ right →
      (left.lookup path = right.lookup path ↔ left'.lookup path = right'.lookup path)) :
    relationOf left right = relationOf left' right' := by
  apply relationOf_eq_of_iff
  · constructor
    · intro hall path hmem hmem'
      have hboth := And.intro ((hleft path).mpr hmem) ((hright path).mpr hmem')
      exact (hshared path hboth.1 hboth.2).mp (hall path hboth.1 hboth.2)
    · intro hall path hmem hmem'
      exact (hshared path hmem hmem').mpr
        (hall path ((hleft path).mp hmem) ((hright path).mp hmem'))
  · simp only [hleft, hright]

theorem relationOf_comm (left right : TypedPaths) :
    relationOf left right = relationOf right left := by
  apply relationOf_eq_of_iff
  · constructor <;> exact fun hall path hmem hmem' ↦ (hall path hmem' hmem).symm
  · exact forall_congr' fun path ↦ iff_comm

theorem relationOf_self (types : TypedPaths) : relationOf types types = .compatible :=
  (relationOf_spec types types).1.mpr fun _ _ _ ↦ rfl

end Deblob.Semantic
