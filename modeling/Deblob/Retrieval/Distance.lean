import Deblob.Retrieval.FieldSig
import Mathlib.Algebra.BigOperators.Group.Finset.Basic
import Mathlib.Algebra.Order.Field.Rat
import Mathlib.Tactic.NormNum

/-!
# Structural distance

A field signature is flattened into sets of paths, and the distance of two of them is a weighted sum
of how much these sets differ. Distances are rationals. The tables of Unicode are a parameter.
-/

namespace Deblob.Retrieval

open Lib

/-! ## Name tokens -/

/-- The classes of characters, their lower case and the normalization of names. -/
structure Unicode where
  nfc : String → String
  isAlphanumeric : Char → Bool
  isUppercase : Char → Bool
  isLowercase : Char → Bool
  isNumeric : Char → Bool
  toLowercase : Char → List Char

/-- The tables of ASCII. -/
def Unicode.ascii : Unicode where
  nfc := id
  isAlphanumeric := Char.isAlphanum
  isUppercase := Char.isUpper
  isLowercase := Char.isLower
  isNumeric := Char.isDigit
  toLowercase char := [char.toLower]

def maxTokenLen : ℕ := 40

def maxTokensPerName : ℕ := 16

structure TokenState where
  tokens : List (List Char)
  current : List Char
  prevWasLowerOrDigit : Bool

/-- The token that was being read is done. -/
def TokenState.push (state : TokenState) : TokenState :=
  if state.current = [] then state
  else { state with tokens := state.tokens ++ [state.current], current := [] }

section

variable (unicode : Unicode)

def tokenStep (state : TokenState) (char : Char) : TokenState :=
  if unicode.isAlphanumeric char then
    let state := if unicode.isUppercase char ∧ state.prevWasLowerOrDigit then state.push else state
    { state with
      current := state.current ++ unicode.toLowercase char
      prevWasLowerOrDigit := unicode.isLowercase char || unicode.isNumeric char }
  else { state.push with prevWasLowerOrDigit := false }

def normalizeNameTokens (name : String) : List String :=
  let state := ((unicode.nfc name).toList.foldl (tokenStep unicode) ⟨[], [], false⟩).push
  ((state.tokens.filter (· ≠ [])).take maxTokensPerName).map fun token ↦
    String.ofList (token.take maxTokenLen)

end

/-! ## Features -/

structure StructuralFeatures where
  paths : List (String × Finset String)
  required : Finset String
  nullable : Finset String
  arrayPaths : Finset String
  objectPaths : Finset String
  nameTokens : Finset String
  depth : ℕ

mutual

def maxDepth : FieldSig → ℕ
  | ⟨_, _, children, elem⟩ => max (maxChildDepth children) (maxElemDepth elem)

def maxChildDepth : List (String × FieldSig) → ℕ
  | [] => 0
  | (_, child) :: children => max (1 + maxDepth child) (maxChildDepth children)

def maxElemDepth : Option FieldSig → ℕ
  | none => 0
  | some elem => 1 + maxDepth elem

end

def recordPath (features : StructuralFeatures) (path : String) (sig : FieldSig) :
    StructuralFeatures :=
  { features with
    paths := insertWith path sig.types (fun _ ↦ sig.types) features.paths
    required := if sig.optional then features.required else insert path features.required
    nullable := if "null" ∈ sig.types then insert path features.nullable else features.nullable
    arrayPaths :=
      if "array" ∈ sig.types then insert path features.arrayPaths else features.arrayPaths
    objectPaths :=
      if "object" ∈ sig.types then insert path features.objectPaths else features.objectPaths }

def addTokens (features : StructuralFeatures) (tokens : List String) : StructuralFeatures :=
  { features with nameTokens := features.nameTokens ∪ tokens.toFinset }

def childPath (parent name : String) : String :=
  if parent = "" then name else parent ++ "." ++ name

section

variable (unicode : Unicode)

mutual

/-- Only at the root does the element of the node itself have a path. -/
def walk (path : String) (features : StructuralFeatures) : FieldSig → StructuralFeatures
  | ⟨_, _, children, elem⟩ =>
    let features := walkChildren path features children
    if path = "" then walkElem "[]" features elem else features

def walkChildren (path : String) (features : StructuralFeatures) :
    List (String × FieldSig) → StructuralFeatures
  | [] => features
  | (name, child) :: children =>
    let below := childPath path name
    let features := addTokens (recordPath features below child) (normalizeNameTokens unicode name)
    walkChildren path (walkElemOf (below ++ "[]") (walk below features child) child) children

def walkElemOf (path : String) (features : StructuralFeatures) : FieldSig → StructuralFeatures
  | ⟨_, _, _, elem⟩ => walkElem path features elem

def walkElem (path : String) (features : StructuralFeatures) :
    Option FieldSig → StructuralFeatures
  | none => features
  | some elem => walk path (recordPath features path elem) elem

end

def extractFeatures (root : FieldSig) : StructuralFeatures :=
  walk unicode "" ⟨[], ∅, ∅, ∅, ∅, ∅, maxDepth root⟩ root

end

/-! ## Components -/

def jaccardDistance (left right : Finset String) : ℚ :=
  if left = ∅ ∧ right = ∅ then 0
  else 1 - ((left ∩ right).card : ℚ) / (left ∪ right).card

def depthDistance (left right : ℕ) : ℚ :=
  |(left : ℚ) - right| / max (max left right) 1

/-- The types at a path, or the greatest distance if only one side has it. -/
def pathDistance (left right : StructuralFeatures) (path : String) : ℚ :=
  match getEntry left.paths path, getEntry right.paths path with
  | some leftTypes, some rightTypes => jaccardDistance leftTypes rightTypes
  | _, _ => 1

def fieldPathTypeDistance (left right : StructuralFeatures) : ℚ :=
  let allPaths := (left.paths.map Prod.fst ++ right.paths.map Prod.fst).toFinset
  if allPaths = ∅ then 0
  else (∑ path ∈ allPaths, pathDistance left right path) / allPaths.card

/-- Every type at any path. -/
def typeUnion (features : StructuralFeatures) : Finset String :=
  features.paths.foldl (fun types path ↦ types ∪ path.2) ∅

def nullabilityDistance (left right : StructuralFeatures) : ℚ :=
  (jaccardDistance left.nullable right.nullable +
    jaccardDistance (typeUnion left) (typeUnion right)) / 2

def arrayMapShapeDistance (left right : StructuralFeatures) : ℚ :=
  (jaccardDistance left.arrayPaths right.arrayPaths +
    jaccardDistance left.objectPaths right.objectPaths) / 2

structure DistanceComponents where
  fieldPathType : ℚ
  nameOverlap : ℚ
  presenceOverlap : ℚ
  depthSimilarity : ℚ
  nullability : ℚ
  arrayMapShape : ℚ

/-- The weights sum to one. -/
def DistanceComponents.total (components : DistanceComponents) : ℚ :=
  35 / 100 * components.fieldPathType + 25 / 100 * components.nameOverlap +
    15 / 100 * components.presenceOverlap + 10 / 100 * components.depthSimilarity +
    10 / 100 * components.nullability + 5 / 100 * components.arrayMapShape

def computeDistance (left right : StructuralFeatures) : DistanceComponents where
  fieldPathType := fieldPathTypeDistance left right
  nameOverlap := jaccardDistance left.nameTokens right.nameTokens
  presenceOverlap := jaccardDistance left.required right.required
  depthSimilarity := depthDistance left.depth right.depth
  nullability := nullabilityDistance left right
  arrayMapShape := arrayMapShapeDistance left right

/-! ## Equal features -/

@[simp]
theorem jaccardDistance_self (set : Finset String) : jaccardDistance set set = 0 := by
  unfold jaccardDistance
  split_ifs with hempty
  · rfl
  · have hcard : (set.card : ℚ) ≠ 0 := by simpa using hempty
    rw [Finset.inter_self, Finset.union_self, div_self hcard, sub_self]

@[simp]
theorem depthDistance_self (depth : ℕ) : depthDistance depth depth = 0 := by
  simp [depthDistance]

/-- A path of the features has the same types on both sides. -/
theorem pathDistance_self {features : StructuralFeatures} {path : String}
    (hpath : path ∈ features.paths.map Prod.fst) : pathDistance features features path = 0 := by
  have hentry : getEntry features.paths path ≠ none := by
    intro hnone
    rcases List.mem_map.mp hpath with ⟨entry, hentry, rfl⟩
    have hne := List.lookup_eq_none_iff.mp hnone entry hentry
    simp at hne
  unfold pathDistance
  cases hsome : getEntry features.paths path with
  | none => exact absurd hsome hentry
  | some types => exact jaccardDistance_self types

@[simp]
theorem fieldPathTypeDistance_self (features : StructuralFeatures) :
    fieldPathTypeDistance features features = 0 := by
  unfold fieldPathTypeDistance
  have hsum : ∑ path ∈ (features.paths.map Prod.fst ++ features.paths.map Prod.fst).toFinset,
      pathDistance features features path = 0 := by
    apply Finset.sum_eq_zero
    intro path hpath
    rw [List.mem_toFinset, List.mem_append, or_self] at hpath
    exact pathDistance_self hpath
  dsimp only
  rw [hsum, zero_div, ite_self]

/-- Features have no distance from themselves. -/
theorem total_computeDistance_self (features : StructuralFeatures) :
    (computeDistance features features).total = 0 := by
  simp [computeDistance, DistanceComponents.total, nullabilityDistance, arrayMapShapeDistance]

end Deblob.Retrieval
