import Deblob.Core.NumberText
import Deblob.Fingerprint.KeyString
import Deblob.Lib.SortedMap

/-!
# Mergeable profiles

A profile counts, for every field position, how often it was present and with which types. Profiles
of single documents are merged into the profile of a sequence. The counters are natural numbers. A
number's bucket is decided on the exact value of its text; the bounds are the midpoints at which
the source's rounding to 64 bits changes sides.
-/

namespace Deblob.Monoid

open Core Lib Fingerprint

structure TypeCounts where
  null : ℕ
  bool : ℕ
  number : ℕ
  string : ℕ
  array : ℕ
  object : ℕ
deriving DecidableEq

def TypeCounts.zero : TypeCounts := ⟨0, 0, 0, 0, 0, 0⟩

def TypeCounts.merge (left right : TypeCounts) : TypeCounts where
  null := left.null + right.null
  bool := left.bool + right.bool
  number := left.number + right.number
  string := left.string + right.string
  array := left.array + right.array
  object := left.object + right.object

/-- Which coarse buckets the numbers at a position fell into. -/
structure NumericBuckets where
  zero : Bool
  smallPositive : Bool
  mediumPositive : Bool
  largePositive : Bool
  negative : Bool
deriving DecidableEq

def NumericBuckets.none : NumericBuckets := ⟨false, false, false, false, false⟩

def NumericBuckets.merge (left right : NumericBuckets) : NumericBuckets where
  zero := left.zero || right.zero
  smallPositive := left.smallPositive || right.smallPositive
  mediumPositive := left.mediumPositive || right.mediumPositive
  largePositive := left.largePositive || right.largePositive
  negative := left.negative || right.negative

/-! ## Number buckets -/

/-- Values up to here are rounded to zero. -/
def roundsToZero : ℚ := 1 / 2 ^ 1075

def classifyNumericBucket (text : String) : NumericBuckets :=
  match decimalValue text with
  | Option.none => .none
  | some value =>
    if value < -roundsToZero then { NumericBuckets.none with negative := true }
    else if value ≤ roundsToZero then { NumericBuckets.none with zero := true }
    else if value ≤ 10 + 1 / 2 ^ 50 then { NumericBuckets.none with smallPositive := true }
    else if value ≤ 100 + 1 / 2 ^ 47 then { NumericBuckets.none with mediumPositive := true }
    else { NumericBuckets.none with largePositive := true }

def isIntText (text : String) : Bool :=
  text.toList.all fun char ↦ char ∉ ['.', 'e', 'E']

def isNegZero (text : String) : Bool :=
  text.toList.head? = some '-' &&
    ((decimalValue text).any fun value ↦ -roundsToZero ≤ value ∧ value ≤ roundsToZero)

/-! ## Fields -/

/-- The statistics of one field position; the children are sorted by key. -/
structure FieldNode where
  present : ℕ
  explicitNull : ℕ
  types : TypeCounts
  children : List (String × FieldNode)
  arrayElem : Option FieldNode
  arrayEmptySeen : Bool
  arrayPartialSeen : Bool
  intOnly : Bool
  negZeroSeen : Bool
  numericBuckets : NumericBuckets

def FieldNode.identity : FieldNode where
  present := 0
  explicitNull := 0
  types := .zero
  children := []
  arrayElem := none
  arrayEmptySeen := false
  arrayPartialSeen := false
  intOnly := true
  negZeroSeen := false
  numericBuckets := .none

mutual

def FieldNode.merge (left : FieldNode) : FieldNode → FieldNode
  | ⟨present, explicitNull, types, children, arrayElem, arrayEmptySeen, arrayPartialSeen, intOnly,
      negZeroSeen, numericBuckets⟩ =>
    { present := left.present + present
      explicitNull := left.explicitNull + explicitNull
      types := left.types.merge types
      children := mergeChildren left.children children
      arrayElem := mergeArrayElem left.arrayElem arrayElem
      arrayEmptySeen := left.arrayEmptySeen || arrayEmptySeen
      arrayPartialSeen := left.arrayPartialSeen || arrayPartialSeen
      intOnly := left.intOnly && intOnly
      negZeroSeen := left.negZeroSeen || negZeroSeen
      numericBuckets := left.numericBuckets.merge numericBuckets }

def mergeChildren (out : List (String × FieldNode)) :
    List (String × FieldNode) → List (String × FieldNode)
  | [] => out
  | (key, child) :: children =>
    mergeChildren (insertWith key child (fun existing ↦ existing.merge child) out) children

def mergeArrayElem (left : Option FieldNode) : Option FieldNode → Option FieldNode
  | none => left
  | some right => some (left.elim right fun left ↦ left.merge right)

end

section Merge

variable (left right : FieldNode)

@[simp]
theorem merge_present : (left.merge right).present = left.present + right.present := by
  cases right
  rfl

@[simp]
theorem merge_explicitNull :
    (left.merge right).explicitNull = left.explicitNull + right.explicitNull := by
  cases right
  rfl

@[simp]
theorem merge_types : (left.merge right).types = left.types.merge right.types := by
  cases right
  rfl

@[simp]
theorem merge_children :
    (left.merge right).children = mergeChildren left.children right.children := by
  cases right
  rfl

@[simp]
theorem merge_arrayElem :
    (left.merge right).arrayElem = mergeArrayElem left.arrayElem right.arrayElem := by
  cases right
  rfl

@[simp]
theorem merge_arrayEmptySeen :
    (left.merge right).arrayEmptySeen = (left.arrayEmptySeen || right.arrayEmptySeen) := by
  cases right
  rfl

@[simp]
theorem merge_arrayPartialSeen :
    (left.merge right).arrayPartialSeen = (left.arrayPartialSeen || right.arrayPartialSeen) := by
  cases right
  rfl

@[simp]
theorem merge_intOnly :
    (left.merge right).intOnly = (left.intOnly && right.intOnly) := by
  cases right
  rfl

@[simp]
theorem merge_negZeroSeen :
    (left.merge right).negZeroSeen = (left.negZeroSeen || right.negZeroSeen) := by
  cases right
  rfl

@[simp]
theorem merge_numericBuckets :
    (left.merge right).numericBuckets = left.numericBuckets.merge right.numericBuckets := by
  cases right
  rfl

end Merge

/-- `merge_all`: `none` if there is nothing to merge. -/
def mergeAll (nodes : List FieldNode) : Option FieldNode :=
  nodes.foldl (fun acc next ↦ mergeArrayElem acc (some next)) none

mutual

def FieldNode.fromNode : Node → FieldNode
  | .null => { identity with
      present := 1, explicitNull := 1, types := { TypeCounts.zero with null := 1 } }
  | .bool _ => { identity with present := 1, types := { TypeCounts.zero with bool := 1 } }
  | .number text => { identity with
      present := 1
      types := { TypeCounts.zero with number := 1 }
      intOnly := isIntText text
      negZeroSeen := isNegZero text
      numericBuckets := classifyNumericBucket text }
  | .string _ => { identity with present := 1, types := { TypeCounts.zero with string := 1 } }
  | .array items truncated => { identity with
      present := 1
      types := { TypeCounts.zero with array := 1 }
      arrayPartialSeen := truncated
      arrayEmptySeen := !truncated && items.isEmpty
      arrayElem := mergeAll (fromNodes items) }
  | .object fields => { identity with
      present := 1
      types := { TypeCounts.zero with object := 1 }
      children := collectMap (fromFields fields) }

def FieldNode.fromNodes : List Node → List FieldNode
  | [] => []
  | node :: nodes => fromNode node :: fromNodes nodes

def FieldNode.fromFields : List (String × Node) → List (String × FieldNode)
  | [] => []
  | (key, value) :: fields => (key, fromNode value) :: fromFields fields

end

structure Profile where
  count : ℕ
  root : FieldNode

def Profile.identity : Profile := ⟨0, .identity⟩

def Profile.fromNode (node : Node) : Profile := ⟨1, .fromNode node⟩

def Profile.merge (left right : Profile) : Profile :=
  ⟨left.count + right.count, left.root.merge right.root⟩

/-- The merged profile of a sequence of documents. -/
def profileOf : List Node → Profile
  | [] => .identity
  | doc :: docs => docs.foldl (fun profile doc ↦ profile.merge (.fromNode doc)) (.fromNode doc)

/-! ## The generalized schema -/

def generalizer : String := "deblob-monoid-v1"

/-- The escaping of keys is the canonicalizer's. -/
def writeJsonKey (key : String) : List UInt8 := writeJsonString key

def TypeCounts.named (types : TypeCounts) : List (String × ℕ) :=
  [("array", types.array), ("bool", types.bool), ("null", types.null), ("number", types.number),
    ("object", types.object), ("string", types.string)]

def writeTypes (isFirst : Bool) : List (String × ℕ) → List UInt8
  | [] => []
  | (name, count) :: named =>
    if 0 < count then
      (if isFirst then [] else ascii ",") ++
        ((ascii "\"" ++ (ascii name ++ ascii "\"")) ++ writeTypes false named)
    else writeTypes isFirst named

mutual

/-- `denom` is what the presence of the field is compared with. -/
def writeGeneralizedField (denom : ℕ) : FieldNode → List UInt8
  | ⟨present, _, types, children, arrayElem, _, _, _, _, _⟩ =>
    ascii "\x7b\"optional\":" ++ (ascii (if present < denom then "true" else "false") ++
      (ascii ",\"types\":[" ++ (writeTypes true types.named ++ (ascii "]" ++
        ((if children.isEmpty then [] else
            ascii ",\"children\":\x7b" ++ (writeChildren true types.object children ++
              ascii "\x7d")) ++
          (writeElem types.array arrayElem ++ ascii "\x7d"))))))

def writeChildren (isFirst : Bool) (denom : ℕ) : List (String × FieldNode) → List UInt8
  | [] => []
  | (key, child) :: children =>
    (if isFirst then [] else ascii ",") ++
      ((writeJsonKey key ++ (ascii ":" ++ writeGeneralizedField denom child)) ++
        writeChildren false denom children)

def writeElem (denom : ℕ) : Option FieldNode → List UInt8
  | none => []
  | some elem => ascii ",\"elem\":" ++ writeGeneralizedField denom elem

end

def Profile.generalizedCanonicalJson (profile : Profile) : List UInt8 :=
  writeGeneralizedField profile.count profile.root

def Profile.generalizedFingerprint (sha256 : Bytes → Digest) (profile : Profile) : Digest :=
  sha256 (ascii generalizer ++ ([0] ++ (ascii "\x7b\"gen\":\"" ++ (ascii generalizer ++
    (ascii "\",\"fields\":" ++ (profile.generalizedCanonicalJson ++ ascii "\x7d"))))))

end Deblob.Monoid
