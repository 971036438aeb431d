import Deblob.Monoid.Laws

/-!
# Value profiles

At a promotion the profile of the candidate is flattened to one entry for each leaf, under the
dotted path of its keys. A leaf is a field without children, and the root is none.
-/

namespace Deblob.Umbrella

open Lib Fingerprint Deblob.Monoid

/-- One bit for each bucket, as `value_bucket` has them. -/
def bucketBit (seen : Bool) (bit : UInt8) : UInt8 := if seen then (1 : UInt8) <<< bit else 0

def maskOf (buckets : NumericBuckets) : UInt8 :=
  bucketBit buckets.negative 0 ||| bucketBit buckets.zero 1 |||
    bucketBit buckets.smallPositive 2 ||| bucketBit buckets.mediumPositive 3 |||
    bucketBit buckets.largePositive 4

/-- The value evidence of one leaf. -/
structure LeafValueProfile where
  path : String
  presentCount : ℕ
  explicitNullCount : ℕ
  typeCounts : TypeCounts
  numericBucketMask : UInt8
  intOnly : Bool
  negZeroSeen : Bool

def leafValueProfile (path : String) (node : FieldNode) : LeafValueProfile where
  path := path
  presentCount := node.present
  explicitNullCount := node.explicitNull
  typeCounts := node.types
  numericBucketMask := maskOf node.numericBuckets
  intOnly := node.intOnly
  negZeroSeen := node.negZeroSeen

/-- An empty path counts as the root. -/
def childPath (path key : String) : String := if path = "" then key else path ++ "." ++ key

mutual

/-- `walk`: the leaves of a field at a path. -/
def walkValues (path : String) : FieldNode → List LeafValueProfile
  | ⟨present, explicitNull, types, children, arrayElem, arrayEmptySeen, arrayPartialSeen, intOnly,
      negZeroSeen, numericBuckets⟩ =>
    if children.isEmpty then
      if path = "" then []
      else [leafValueProfile path ⟨present, explicitNull, types, children, arrayElem,
        arrayEmptySeen, arrayPartialSeen, intOnly, negZeroSeen, numericBuckets⟩]
    else walkChildValues path children

def walkChildValues (path : String) : List (String × FieldNode) → List LeafValueProfile
  | [] => []
  | (key, child) :: children =>
    walkValues (childPath path key) child ++ walkChildValues path children

end

/-- The leaves of a snapshot. -/
def profileLeaves (profile : Profile) : List LeafValueProfile := walkValues "" profile.root

/-! ## Leaves by their keys -/

mutual

/-- The leaves of a field with the keys that lead to them. -/
def keyedLeaves : FieldNode → List (List String × FieldNode)
  | ⟨present, explicitNull, types, children, arrayElem, arrayEmptySeen, arrayPartialSeen, intOnly,
      negZeroSeen, numericBuckets⟩ =>
    if children.isEmpty then
      [([], ⟨present, explicitNull, types, children, arrayElem, arrayEmptySeen, arrayPartialSeen,
        intOnly, negZeroSeen, numericBuckets⟩)]
    else keyedChildLeaves children

def keyedChildLeaves : List (String × FieldNode) → List (List String × FieldNode)
  | [] => []
  | (key, child) :: children =>
    (keyedLeaves child).map (fun leaf ↦ (key :: leaf.1, leaf.2)) ++ keyedChildLeaves children

end

theorem walkChildValues_eq (path : String) (children : List (String × FieldNode)) :
    walkChildValues path children =
      children.flatMap fun child ↦ walkValues (childPath path child.1) child.2 := by
  induction children with
  | nil => rfl
  | cons child children ih => rw [walkChildValues, ih, List.flatMap_cons]

theorem walkValues_eq (path : String) (field : FieldNode) :
    walkValues path field =
      if field.children.isEmpty then if path = "" then [] else [leafValueProfile path field]
      else field.children.flatMap fun child ↦ walkValues (childPath path child.1) child.2 := by
  cases field
  rw [walkValues, walkChildValues_eq]

theorem keyedChildLeaves_eq (children : List (String × FieldNode)) :
    keyedChildLeaves children = children.flatMap fun child ↦
      (keyedLeaves child.2).map fun leaf ↦ (child.1 :: leaf.1, leaf.2) := by
  induction children with
  | nil => rfl
  | cons child children ih => rw [keyedChildLeaves, ih, List.flatMap_cons]

theorem keyedLeaves_eq (field : FieldNode) :
    keyedLeaves field =
      if field.children.isEmpty then [([], field)]
      else field.children.flatMap fun child ↦
        (keyedLeaves child.2).map fun leaf ↦ (child.1 :: leaf.1, leaf.2) := by
  cases field
  rw [keyedLeaves, keyedChildLeaves_eq]

/-! ## Observed fields -/

/-- A field that stands for some nodes has a type, and has children only below objects. -/
inductive FieldNode.Observed : FieldNode → Prop
  | intro {field : FieldNode} (keys : SortedKeys field.children)
      (typed : ∃ named ∈ field.types.named, 0 < named.2)
      (object : field.children ≠ [] → 0 < field.types.object)
      (children : ∀ child ∈ field.children, Observed child.2) : Observed field

def nodeTag : Node → String
  | .null => "null"
  | .bool _ => "bool"
  | .number _ => "number"
  | .string _ => "string"
  | .array .. => "array"
  | .object _ => "object"

theorem named_nodeTag (node : Node) (nodes : List Node) :
    (nodeTag node, countRank node.rank nodes) ∈ (typeCounts nodes).named := by
  cases node <;> simp [nodeTag, TypeCounts.named, typeCounts, Node.rank]

theorem countRank_pos_of_mem {node : Node} {nodes : List Node} (hnode : node ∈ nodes) :
    0 < countRank node.rank nodes :=
  List.countP_pos_iff.mpr ⟨node, hnode, decide_eq_true rfl⟩

theorem exists_typed {nodes : List Node} (hnodes : nodes ≠ []) :
    ∃ named ∈ (typeCounts nodes).named, 0 < named.2 := by
  rcases List.exists_mem_of_ne_nil nodes hnodes with ⟨node, hnode⟩
  exact ⟨_, named_nodeTag node nodes, countRank_pos_of_mem hnode⟩

theorem object_of_children {nodes : List Node} {children : List (String × FieldNode)}
    (hsorted : SortedKeys children)
    (hsummary : ∀ key, SummarizesPart (children.lookup key) (valuesAt key nodes))
    (hchildren : children ≠ []) : 0 < (typeCounts nodes).object := by
  rcases List.exists_mem_of_ne_nil _ hchildren with ⟨child, hchild⟩
  have hpart := hsummary child.1
  rw [hsorted.mem_iff.mp hchild] at hpart
  have hvalues : valuesAt child.1 nodes ≠ [] := by
    generalize valuesAt child.1 nodes = values at hpart
    cases hpart
    assumption
  rcases List.exists_mem_of_ne_nil _ hvalues with ⟨value, hvalue⟩
  rcases List.mem_filterMap.mp hvalue with ⟨node, hnode, hat⟩
  cases node with
  | object fields => exact countRank_pos_of_mem hnode
  | _ => cases hat

mutual

theorem Summarizes.observed : {field : FieldNode} → {nodes : List Node} →
    Summarizes field nodes → nodes ≠ [] → FieldNode.Observed field
  | _, _, .intro _ types sorted children _, hnodes =>
    .intro sorted (types ▸ exists_typed hnodes)
      (fun hchildren ↦ types ▸ object_of_children sorted children hchildren)
      fun child hchild ↦
        SummarizesPart.observed (children child.1) child.2 (sorted.mem_iff.mp hchild)

theorem SummarizesPart.observed : {part : Option FieldNode} → {nodes : List Node} →
    SummarizesPart part nodes → ∀ child, part = some child → FieldNode.Observed child
  | _, _, .some nonempty summary, _, hchild =>
    Option.some.inj hchild ▸ Summarizes.observed summary nonempty

end

/-! ## The walk by keys -/

def leafProfileAt (path : String) (node : FieldNode) : Option LeafValueProfile :=
  if path = "" then none else some (leafValueProfile path node)

theorem walkValues_eq_filterMap {field : FieldNode} (hobserved : FieldNode.Observed field)
    (path : String) :
    walkValues path field =
      (keyedLeaves field).filterMap fun leaf ↦
        leafProfileAt (leaf.1.foldl childPath path) leaf.2 := by
  induction hobserved generalizing path with
  | @intro field keys typed object children ih =>
      rw [walkValues_eq, keyedLeaves_eq]
      split_ifs with hempty hpath
      · simp [leafProfileAt, hpath]
      · simp [leafProfileAt, hpath]
      · rw [List.filterMap_flatMap]
        refine List.flatMap_congr fun child hchild ↦ ?_
        rw [ih child hchild, List.filterMap_map]
        rfl

/-- No two leaves have the same keys. -/
theorem keyedLeaves_pairwise {field : FieldNode} (hobserved : FieldNode.Observed field) :
    (keyedLeaves field).Pairwise fun left right ↦ left.1 ≠ right.1 := by
  induction hobserved with
  | @intro field keys typed object children ih =>
      rw [keyedLeaves_eq]
      split_ifs with hempty
      · exact List.pairwise_singleton _ _
      · rw [List.pairwise_flatMap]
        constructor
        · intro child hchild
          rw [List.pairwise_map]
          exact (ih child hchild).imp fun hne heq ↦ hne (List.cons.inj heq).2
        · refine keys.imp fun {left right} hlt leaf hleaf other hother ↦ ?_
          rcases List.mem_map.mp hleaf with ⟨below, -, rfl⟩
          rcases List.mem_map.mp hother with ⟨beside, -, rfl⟩
          exact fun heq ↦ hlt.ne (List.cons.inj heq).1

end Deblob.Umbrella
