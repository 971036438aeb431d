import Deblob.Monoid.Profile
import Deblob.Semantic.JsonText
import Mathlib.Data.Finset.Dedup
import Mathlib.Data.Finset.Insert

/-!
# Field signatures

Retrieval reduces both sides of a distance to one tree: the types, the optional flag, the children
and the element of every position. The tree of a candidate is computed from its live profile, the
tree of a published schema from the JSON in its record.
-/

namespace Deblob.Retrieval

open Core Lib Deblob.Monoid
open Umbrella (Value)

structure FieldSig where
  optional : Bool
  types : Finset String
  children : List (String × FieldSig)
  elem : Option FieldSig

def FieldSig.default : FieldSig := ⟨false, ∅, [], none⟩

mutual

/-- `denom` is the presence count the field is compared with. -/
def fieldSigFromNode (denom : ℕ) : FieldNode → FieldSig
  | ⟨present, _, types, children, arrayElem, _, _, _, _, _⟩ =>
    { optional := present < denom
      types := ((types.named.filter fun named ↦ 0 < named.2).map Prod.fst).toFinset
      children := collectMap (childSigs types.object children)
      elem := elemSig types.array arrayElem }

def childSigs (denom : ℕ) : List (String × FieldNode) → List (String × FieldSig)
  | [] => []
  | (key, child) :: children => (key, fieldSigFromNode denom child) :: childSigs denom children

def elemSig (denom : ℕ) : Option FieldNode → Option FieldSig
  | none => none
  | some elem => some (fieldSigFromNode denom elem)

end

/-- A flag that is not there or no boolean is false. -/
def parseOptional (entries : List (String × Value)) : Bool :=
  match getEntry entries "optional" with
  | some (.bool optional) => optional
  | _ => false

def parseTypes (entries : List (String × Value)) : Finset String :=
  match getEntry entries "types" with
  | some (.array types) =>
    (types.filterMap fun
      | .string name => some name
      | _ => none).toFinset
  | _ => ∅

mutual

/-- What is malformed or missing degrades to the default. -/
def parseFieldSig : Value → FieldSig
  | .object entries =>
    { optional := parseOptional entries
      types := parseTypes entries
      children := parseChildrenOf entries
      elem := parseElemOf entries }
  | _ => .default

def parseChildrenOf : List (String × Value) → List (String × FieldSig)
  | [] => []
  | (name, value) :: entries =>
    if name = "children" then
      match value with
      | .object children => collectMap (parseChildren children)
      | _ => []
    else parseChildrenOf entries

def parseChildren : List (String × Value) → List (String × FieldSig)
  | [] => []
  | (key, value) :: children => (key, parseFieldSig value) :: parseChildren children

def parseElemOf : List (String × Value) → Option FieldSig
  | [] => none
  | (name, value) :: entries =>
    if name = "elem" then some (parseFieldSig value) else parseElemOf entries

end

def fieldSigFromCanonical (fromStr : Bytes → Except String Value) (canonical : Bytes) : FieldSig :=
  match fromStr canonical with
  | .ok value => parseFieldSig value
  | .error _ => .default

/-! ## Equations -/

theorem childSigs_eq (denom : ℕ) (children : List (String × FieldNode)) :
    childSigs denom children =
      children.map fun child ↦ (child.1, fieldSigFromNode denom child.2) := by
  induction children with
  | nil => rfl
  | cons child children ih => rw [childSigs, ih, List.map_cons]

theorem elemSig_eq (denom : ℕ) (elem : Option FieldNode) :
    elemSig denom elem = elem.map (fieldSigFromNode denom) := by
  cases elem <;> rfl

theorem fieldSigFromNode_eq (denom : ℕ) (field : FieldNode) :
    fieldSigFromNode denom field =
      { optional := field.present < denom
        types := ((field.types.named.filter fun named ↦ 0 < named.2).map Prod.fst).toFinset
        children := collectMap (field.children.map fun child ↦
          (child.1, fieldSigFromNode field.types.object child.2))
        elem := field.arrayElem.map (fieldSigFromNode field.types.array) } := by
  cases field
  rw [fieldSigFromNode, childSigs_eq, elemSig_eq]

theorem parseChildren_eq (children : List (String × Value)) :
    parseChildren children = children.map fun child ↦ (child.1, parseFieldSig child.2) := by
  induction children with
  | nil => rfl
  | cons child children ih => rw [parseChildren, ih, List.map_cons]

end Deblob.Retrieval
