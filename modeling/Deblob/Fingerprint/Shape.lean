import Deblob.Fingerprint.Parse
import Deblob.Lib.SortedMap

/-!
# Shapes

A shape keeps the types, the object keys and the set of element shapes of a document. The element
sets and the field maps are sorted lists, in the derived order of the source.
-/

namespace Deblob.Fingerprint

open Lib

/-- `partly` is the source's `Partial`. -/
inductive Emptiness where
  | empty
  | nonEmpty
  | partly
deriving DecidableEq, Ord

inductive Shape where
  | null
  | bool
  | number
  | string
  | array (elements : List Shape) (emptiness : Emptiness)
  | object (fields : List (String × Shape))

/-- The position of a shape's constructor. -/
def Shape.rank : Shape → ℕ
  | .null => 0
  | .bool => 1
  | .number => 2
  | .string => 3
  | .array .. => 4
  | .object _ => 5

mutual

/-- The order of shapes: by constructor, then lexicographic in the contents. -/
def Shape.cmp : Shape → Shape → Ordering
  | .array left leftEmptiness, .array right rightEmptiness =>
    (cmpElements left right).then (compare leftEmptiness rightEmptiness)
  | .object left, .object right => cmpFields left right
  | left, right => compare left.rank right.rank

def cmpElements : List Shape → List Shape → Ordering
  | [], [] => .eq
  | [], _ :: _ => .lt
  | _ :: _, [] => .gt
  | left :: lefts, right :: rights => (left.cmp right).then (cmpElements lefts rights)

def cmpFields : List (String × Shape) → List (String × Shape) → Ordering
  | [], [] => .eq
  | [], _ :: _ => .lt
  | _ :: _, [] => .gt
  | (leftKey, left) :: lefts, (rightKey, right) :: rights =>
    (compare leftKey rightKey).then ((left.cmp right).then (cmpFields lefts rights))

end

mutual

def shapeOf : Node → Shape
  | .null => .null
  | .bool _ => .bool
  | .number _ => .number
  | .string _ => .string
  | .array items truncated =>
    .array (collectSet Shape.cmp (shapesOf items))
      (if truncated then .partly else if items.isEmpty then .empty else .nonEmpty)
  | .object fields => .object (collectMap (fieldShapesOf fields))

def shapesOf : List Node → List Shape
  | [] => []
  | item :: items => shapeOf item :: shapesOf items

def fieldShapesOf : List (String × Node) → List (String × Shape)
  | [] => []
  | (key, value) :: fields => (key, shapeOf value) :: fieldShapesOf fields

end

theorem shapesOf_eq (items : List Node) : shapesOf items = items.map shapeOf := by
  induction items with
  | nil => rfl
  | cons item items ih => rw [shapesOf, ih, List.map_cons]

theorem fieldShapesOf_eq (fields : List (String × Node)) :
    fieldShapesOf fields = fields.map fun field ↦ (field.1, shapeOf field.2) := by
  induction fields with
  | nil => rfl
  | cons field fields ih => rw [fieldShapesOf, ih, List.map_cons]

theorem Emptiness.eq_of_compare {left right : Emptiness} (hcmp : compare left right = .eq) :
    left = right := by
  cases left <;> cases right <;> first | rfl | cases hcmp

mutual

/-- Shapes that compare equal are equal. -/
theorem Shape.eq_of_cmp : (left right : Shape) → left.cmp right = .eq → left = right
  | .array left leftEmptiness, .array right rightEmptiness, hcmp => by
    obtain ⟨helements, hemptiness⟩ := Ordering.then_eq_eq.mp hcmp
    rw [eq_of_cmpElements left right helements, Emptiness.eq_of_compare hemptiness]
  | .object left, .object right, hcmp => by
    rw [eq_of_cmpFields left right hcmp]
  | .null, right, hcmp | .bool, right, hcmp | .number, right, hcmp | .string, right, hcmp => by
    cases right <;> first | rfl | cases hcmp
  | .array .., .null, hcmp | .array .., .bool, hcmp | .array .., .number, hcmp
  | .array .., .string, hcmp | .array .., .object _, hcmp => by cases hcmp
  | .object _, .null, hcmp | .object _, .bool, hcmp | .object _, .number, hcmp
  | .object _, .string, hcmp | .object _, .array .., hcmp => by cases hcmp

theorem eq_of_cmpElements : (left right : List Shape) → cmpElements left right = .eq → left = right
  | [], [], _ => rfl
  | left :: lefts, right :: rights, hcmp => by
    obtain ⟨hhead, htail⟩ := Ordering.then_eq_eq.mp hcmp
    rw [left.eq_of_cmp right hhead, eq_of_cmpElements lefts rights htail]

theorem eq_of_cmpFields :
    (left right : List (String × Shape)) → cmpFields left right = .eq → left = right
  | [], [], _ => rfl
  | (leftKey, left) :: lefts, (rightKey, right) :: rights, hcmp => by
    obtain ⟨hkey, hcmp⟩ := Ordering.then_eq_eq.mp hcmp
    obtain ⟨hhead, htail⟩ := Ordering.then_eq_eq.mp hcmp
    rw [compare_eq_iff_eq.mp hkey, left.eq_of_cmp right hhead, eq_of_cmpFields lefts rights htail]

end

/-! ## What a shape keeps -/

/-- The position of a node's constructor, as `Shape.rank`. -/
def Node.rank : Node → ℕ
  | .null => 0
  | .bool _ => 1
  | .number _ => 2
  | .string _ => 3
  | .array .. => 4
  | .object _ => 5

/-- The value of a key in an object; a later member replaces an earlier one. -/
def Node.valueAt (key : String) : Node → Option Node
  | .object fields => fields.reverse.lookup key
  | _ => none

def Node.items : Node → List Node
  | .array items _ => items
  | _ => []

/-- The shape of a key's values. -/
def Shape.valueAt (key : String) : Shape → Option Shape
  | .object fields => fields.lookup key
  | _ => none

def Shape.elements : Shape → List Shape
  | .array elements _ => elements
  | _ => []

theorem rank_shapeOf (node : Node) : (shapeOf node).rank = node.rank := by
  cases node <;> rfl

theorem valueAt_shapeOf (key : String) (node : Node) :
    (shapeOf node).valueAt key = (node.valueAt key).map shapeOf := by
  cases node with
  | object fields =>
      change (collectMap (fieldShapesOf fields)).lookup key = _
      rw [lookup_collectMap, fieldShapesOf_eq, ← List.map_reverse, lookup_mapValues]
      rfl
  | _ => rfl

theorem mem_elements_shapeOf {node : Node} {shape : Shape} :
    shape ∈ (shapeOf node).elements ↔ ∃ item ∈ node.items, shapeOf item = shape := by
  cases node with
  | array items truncated =>
      change shape ∈ collectSet Shape.cmp (shapesOf items) ↔ _
      rw [mem_collectSet Shape.eq_of_cmp, shapesOf_eq, List.mem_map]
      rfl
  | _ => simp [shapeOf, Shape.elements, Node.items]

end Deblob.Fingerprint
