import Deblob.Monoid.Observed

/-!
# The generalized identity and the shapes of the documents

The generalized JSON of a profile is a prefix code of its `View`: at every position the optional
flag, the types, the children and the element. Two sequences of documents with the same shapes have
the same positions, types and optional members. What the shapes do not fix is whether a position
holds fewer elements than arrays, which is how the flag of an element is decided.
-/

namespace Deblob.Monoid

open Core Lib Fingerprint

/-! ## Views -/

/-- What the generalized JSON says about a position. -/
structure View where
  optional : Bool
  types : List String
  children : List (String × View)
  elem : Option View

mutual

def FieldNode.view (denom : ℕ) : FieldNode → View
  | ⟨present, _, types, children, arrayElem, _, _, _, _, _⟩ =>
    { optional := present < denom
      types := (types.named.filter fun named ↦ 0 < named.2).map Prod.fst
      children := childViews types.object children
      elem := elemView types.array arrayElem }

def childViews (denom : ℕ) : List (String × FieldNode) → List (String × View)
  | [] => []
  | (key, child) :: children => (key, child.view denom) :: childViews denom children

def elemView (denom : ℕ) : Option FieldNode → Option View
  | none => none
  | some elem => some (elem.view denom)

end

theorem childViews_eq (denom : ℕ) (children : List (String × FieldNode)) :
    childViews denom children = children.map fun child ↦ (child.1, child.2.view denom) := by
  induction children with
  | nil => rfl
  | cons child children ih => rw [childViews, ih, List.map_cons]

theorem elemView_eq (denom : ℕ) (elem : Option FieldNode) :
    elemView denom elem = elem.map (FieldNode.view denom) := by
  cases elem <;> rfl

theorem view_eq (field : FieldNode) (denom : ℕ) :
    field.view denom =
      { optional := field.present < denom
        types := (field.types.named.filter fun named ↦ 0 < named.2).map Prod.fst
        children := field.children.map fun child ↦ (child.1, child.2.view field.types.object)
        elem := field.arrayElem.map (FieldNode.view field.types.array) } := by
  cases field
  rw [FieldNode.view, childViews_eq, elemView_eq]

/-! ## The JSON is a code of the view -/

mutual

def writeView : View → List UInt8
  | ⟨optional, types, children, elem⟩ =>
    ascii "\x7b\"optional\":" ++ (ascii (if optional then "true" else "false") ++
      (ascii ",\"types\":[" ++ (separated 0x2C writeJsonString true types ++ (ascii "]" ++
        ((if children.isEmpty then [] else
            ascii ",\"children\":\x7b" ++ (writeChildViews true children ++ ascii "\x7d")) ++
          (writeElemView elem ++ ascii "\x7d"))))))

def writeChildViews (isFirst : Bool) : List (String × View) → List UInt8
  | [] => []
  | (key, child) :: children =>
    (if isFirst then [] else ascii ",") ++
      ((writeJsonKey key ++ (ascii ":" ++ writeView child)) ++ writeChildViews false children)

def writeElemView : Option View → List UInt8
  | none => []
  | some elem => ascii ",\"elem\":" ++ writeView elem

end

/-- The names of types need no escaping. -/
theorem quoted_typeName : ∀ name ∈ ["array", "bool", "null", "number", "object", "string"],
    ascii "\"" ++ (ascii name ++ ascii "\"") = writeJsonString name := by
  decide

theorem writeTypes_eq {named : List (String × ℕ)}
    (hquoted : ∀ name ∈ named.map Prod.fst,
      ascii "\"" ++ (ascii name ++ ascii "\"") = writeJsonString name) (isFirst : Bool) :
    writeTypes isFirst named = separated 0x2C writeJsonString isFirst
      ((named.filter fun name ↦ 0 < name.2).map Prod.fst) := by
  induction named generalizing isFirst with
  | nil => rfl
  | cons name named ih =>
      obtain ⟨hname, hnamed⟩ := List.forall_mem_cons.mp hquoted
      unfold writeTypes
      by_cases hcount : 0 < name.2
      · simp only [hcount, if_true, List.filter_cons, decide_true, List.map_cons]
        rw [separated, hname, ih hnamed]
        rfl
      · simp only [hcount, if_false, List.filter_cons, decide_false, Bool.false_eq_true]
        exact ih hnamed isFirst

mutual

theorem writeGeneralizedField_eq (denom : ℕ) : (field : FieldNode) →
    writeGeneralizedField denom field = writeView (field.view denom)
  | ⟨present, _, types, children, arrayElem, _, _, _, _, _⟩ => by
    have htypes := @writeTypes_eq types.named quoted_typeName true
    have hempty : (childViews types.object children).isEmpty = children.isEmpty := by
      rw [childViews_eq, List.isEmpty_map]
    rw [writeGeneralizedField, FieldNode.view, writeView, htypes,
      writeChildren_eq types.object true children, writeElem_eq types.array arrayElem]
    simp only [hempty, decide_eq_true_eq]

theorem writeChildren_eq (denom : ℕ) (isFirst : Bool) : (children : List (String × FieldNode)) →
    writeChildren isFirst denom children = writeChildViews isFirst (childViews denom children)
  | [] => rfl
  | (key, child) :: children => by
    rw [writeChildren, childViews, writeChildViews, writeGeneralizedField_eq denom child,
      writeChildren_eq denom false children]

theorem writeElem_eq (denom : ℕ) : (elem : Option FieldNode) →
    writeElem denom elem = writeElemView (elemView denom elem)
  | none => rfl
  | some elem => by rw [writeElem, elemView, writeElemView, writeGeneralizedField_eq denom elem]

end

/-- The code of one child. -/
def writeChildView (child : String × View) : List UInt8 :=
  writeJsonString child.1 ++ (ascii ":" ++ writeView child.2)

theorem writeChildViews_eq (isFirst : Bool) (children : List (String × View)) :
    writeChildViews isFirst children = separated 0x2C writeChildView isFirst children := by
  induction children generalizing isFirst with
  | nil => rfl
  | cons child children ih =>
      rw [writeChildViews, separated, ih]
      rfl

theorem flag_readsBack (optional : Bool) :
    ReadsBack (fun optional ↦ ascii (if optional then "true" else "false")) optional :=
  .of_incomparable (by decide) optional

/-- The members of a view behind its types. -/
def writeChildrenMember (children : List (String × View)) : List UInt8 :=
  if children.isEmpty then [] else
    ascii ",\"children\":\x7b" ++ (writeChildViews true children ++ ascii "\x7d")

theorem elem_readsBack {elem other : Option View}
    (helem : ∀ view, elem = some view → ReadsBack writeView view) {rest left : List UInt8}
    (heq : writeElemView elem ++ 0x7D :: rest = writeElemView other ++ 0x7D :: left) :
    elem = other ∧ rest = left := by
  obtain _ | elem := elem <;> obtain _ | other := other
  · exact ⟨rfl, (List.cons.inj heq).2⟩
  · cases heq
  · cases heq
  · simp only [writeElemView, List.append_assoc] at heq
    obtain ⟨hview, hrest⟩ := helem elem rfl _ _ _ (List.append_cancel_left heq)
    exact ⟨congrArg some hview, (List.cons.inj hrest).2⟩

theorem elem_ne_children (elem : Option View) (rest tail : List UInt8) :
    writeElemView elem ++ 0x7D :: rest ≠ ascii ",\"children\":\x7b" ++ tail := by
  intro heq
  cases elem with
  | none => cases heq
  | some elem =>
      simp only [writeElemView, List.append_assoc] at heq
      cases heq

theorem children_readsBack {children others : List (String × View)} {elem other : Option View}
    (hchildren : ∀ child ∈ children, ReadsBack writeChildView child) {rest left : List UInt8}
    (heq : writeChildrenMember children ++ (writeElemView elem ++ 0x7D :: rest) =
      writeChildrenMember others ++ (writeElemView other ++ 0x7D :: left)) :
    children = others ∧
      writeElemView elem ++ 0x7D :: rest = writeElemView other ++ 0x7D :: left := by
  have hcons (child : String × View) (children : List (String × View)) :
      writeChildrenMember (child :: children) = ascii ",\"children\":\x7b" ++
        (separated 0x2C writeChildView true (child :: children) ++ [0x7D]) := by
    rw [← writeChildViews_eq]
    rfl
  obtain _ | ⟨child, children⟩ := children <;> obtain _ | ⟨otherChild, others⟩ := others
  · exact ⟨rfl, heq⟩
  · rw [hcons, List.append_assoc] at heq
    exact absurd heq (elem_ne_children _ _ _)
  · rw [hcons, List.append_assoc] at heq
    exact absurd heq.symm (elem_ne_children _ _ _)
  · rw [hcons, hcons] at heq
    simp only [List.append_assoc, List.singleton_append] at heq
    have hclose : (0x2C : UInt8) ≠ 0x7D := by decide
    exact separated_readsBack hclose (fun _ _ _ heq ↦ by cases heq) hchildren
      (List.append_cancel_left heq)

mutual

/-- A view is read back whatever follows it. -/
theorem writeView_readsBack : (view : View) → ReadsBack writeView view
  | ⟨optional, types, children, elem⟩ => by
    rintro ⟨otherOptional, otherTypes, others, otherElem⟩ rest left heq
    simp only [writeView, List.append_assoc] at heq
    obtain ⟨hoptional, hbehind⟩ := flag_readsBack _ _ _ _ (List.append_cancel_left heq)
    have hclose : (0x2C : UInt8) ≠ 0x5D := by decide
    obtain ⟨htypes, hmembers⟩ := separated_readsBack hclose (fun _ _ _ heq ↦ by cases heq)
      (fun name _ ↦ writeJsonString_readsBack name) (List.append_cancel_left hbehind)
    obtain ⟨hchildren, htail⟩ := children_readsBack (childViews_readBack children) hmembers
    obtain ⟨helem, hrest⟩ := elem_readsBack (elemView_readsBack elem) htail
    rw [hoptional, htypes, hchildren, helem]
    exact ⟨rfl, hrest⟩

theorem childViews_readBack :
    (children : List (String × View)) → ∀ child ∈ children, ReadsBack writeChildView child
  | [] => by simp
  | (key, child) :: children =>
    List.forall_mem_cons.mpr
      ⟨.pair (ascii ":") (writeJsonString_readsBack key) (writeView_readsBack child),
        childViews_readBack children⟩

theorem elemView_readsBack :
    (elem : Option View) → ∀ view, elem = some view → ReadsBack writeView view
  | none, _, hview => by cases hview
  | some elem, _, hview => by
    cases hview
    exact writeView_readsBack elem

end

/-- Two profiles have one generalized JSON exactly if they have one view. -/
theorem generalizedCanonicalJson_eq_iff (left right : Profile) :
    left.generalizedCanonicalJson = right.generalizedCanonicalJson ↔
      left.root.view left.count = right.root.view right.count := by
  unfold Profile.generalizedCanonicalJson
  rw [writeGeneralizedField_eq, writeGeneralizedField_eq]
  exact (ReadsBack.injective writeView_readsBack).eq_iff

/-! ## Positions of documents with the same shapes -/

/-- The same set of shapes. -/
def SameShapes (left right : List Node) : Prop :=
  ∀ shape, shape ∈ left.map shapeOf ↔ shape ∈ right.map shapeOf

/-- A step down from a position. -/
inductive Step where
  | key (name : String)
  | elem

/-- The nodes at a position below. -/
def nodesAt : List Step → List Node → List Node
  | [], nodes => nodes
  | .key name :: path, nodes => nodesAt path (valuesAt name nodes)
  | .elem :: path, nodes => nodesAt path (itemsOf nodes)

/-- The arrays at a position hold fewer elements than there are arrays. -/
def Sparse (path : List Step) (nodes : List Node) : Prop :=
  (itemsOf (nodesAt path nodes)).length < countRank 4 (nodesAt path nodes)

/-- At every position both sequences hold fewer elements than arrays, or neither does. -/
def SparseAlike (left right : List Node) : Prop := ∀ path, Sparse path left ↔ Sparse path right

theorem mem_map_valuesAt {key : String} {nodes : List Node} {shape : Shape} :
    shape ∈ (valuesAt key nodes).map shapeOf ↔
      ∃ outer ∈ nodes.map shapeOf, outer.valueAt key = some shape := by
  simp only [valuesAt, List.mem_map, List.mem_filterMap]
  constructor
  · rintro ⟨value, ⟨node, hnode, hvalue⟩, rfl⟩
    exact ⟨_, ⟨node, hnode, rfl⟩, by rw [valueAt_shapeOf, hvalue, Option.map_some]⟩
  · rintro ⟨_, ⟨node, hnode, rfl⟩, hshape⟩
    rw [valueAt_shapeOf] at hshape
    obtain ⟨value, hvalue, rfl⟩ := Option.map_eq_some_iff.mp hshape
    exact ⟨value, ⟨node, hnode, hvalue⟩, rfl⟩

theorem mem_map_itemsOf {nodes : List Node} {shape : Shape} :
    shape ∈ (itemsOf nodes).map shapeOf ↔
      ∃ outer ∈ nodes.map shapeOf, shape ∈ outer.elements := by
  simp only [itemsOf, List.mem_map, List.mem_flatMap]
  constructor
  · rintro ⟨item, ⟨node, hnode, hitem⟩, rfl⟩
    exact ⟨_, ⟨node, hnode, rfl⟩, mem_elements_shapeOf.mpr ⟨item, hitem, rfl⟩⟩
  · rintro ⟨_, ⟨node, hnode, rfl⟩, hshape⟩
    obtain ⟨item, hitem, rfl⟩ := mem_elements_shapeOf.mp hshape
    exact ⟨item, ⟨node, hnode, hitem⟩, rfl⟩

theorem countRank_pos {rank : ℕ} {nodes : List Node} :
    0 < countRank rank nodes ↔ ∃ shape ∈ nodes.map shapeOf, shape.rank = rank := by
  simp only [countRank, List.countP_pos_iff, List.mem_map, decide_eq_true_eq]
  constructor
  · rintro ⟨node, hnode, hrank⟩
    exact ⟨_, ⟨node, hnode, rfl⟩, (rank_shapeOf node).trans hrank⟩
  · rintro ⟨_, ⟨node, hnode, rfl⟩, hrank⟩
    exact ⟨node, hnode, (rank_shapeOf node).symm.trans hrank⟩

theorem length_valuesAt (key : String) (nodes : List Node) :
    (valuesAt key nodes).length + (nodes.countP fun node ↦
      node.rank = 5 ∧ node.valueAt key = none) = countRank 5 nodes := by
  induction nodes with
  | nil => rfl
  | cons node nodes ih =>
      have hscalar (hrank : node.rank ≠ 5) : node.valueAt key = none := by
        cases node with
        | object fields => exact absurd rfl hrank
        | _ => rfl
      unfold valuesAt countRank at ih ⊢
      rw [List.filterMap_cons, List.countP_cons, List.countP_cons]
      by_cases hrank : node.rank = 5
      · cases hvalue : node.valueAt key <;> simp [hrank, ← ih] <;> omega
      · simp [hrank, hscalar hrank, ← ih]

/-- Some objects lack a member if the member is present less often than objects are. -/
theorem length_valuesAt_lt_object {key : String} {nodes : List Node} :
    (valuesAt key nodes).length < countRank 5 nodes ↔
      ∃ node ∈ nodes, node.rank = 5 ∧ node.valueAt key = none := by
  have hcount : (valuesAt key nodes).length < countRank 5 nodes ↔
      0 < nodes.countP fun node ↦ node.rank = 5 ∧ node.valueAt key = none := by
    rw [← length_valuesAt key nodes]
    omega
  rw [hcount]
  simp only [List.countP_pos_iff, decide_eq_true_eq]

/-- A member is optional if some object lacks it. -/
theorem length_valuesAt_lt {key : String} {nodes : List Node} :
    (valuesAt key nodes).length < countRank 5 nodes ↔
      ∃ shape ∈ nodes.map shapeOf, shape.rank = 5 ∧ shape.valueAt key = none := by
  rw [length_valuesAt_lt_object]
  simp only [List.mem_map]
  constructor
  · rintro ⟨node, hnode, hrank, hvalue⟩
    exact ⟨_, ⟨node, hnode, rfl⟩, (rank_shapeOf node).trans hrank, by
      rw [valueAt_shapeOf, hvalue, Option.map_none]⟩
  · rintro ⟨_, ⟨node, hnode, rfl⟩, hrank, hvalue⟩
    rw [valueAt_shapeOf, Option.map_eq_none_iff] at hvalue
    exact ⟨node, hnode, (rank_shapeOf node).symm.trans hrank, hvalue⟩

namespace SameShapes

variable {left right : List Node}

/-- What a set of shapes decides is the same for both. -/
theorem exists_iff (hsame : SameShapes left right) (holds : Shape → Prop) :
    (∃ shape ∈ left.map shapeOf, holds shape) ↔ ∃ shape ∈ right.map shapeOf, holds shape :=
  exists_congr fun shape ↦ and_congr_left fun _ ↦ hsame shape

theorem valuesAt (hsame : SameShapes left right) (key : String) :
    SameShapes (valuesAt key left) (valuesAt key right) := by
  intro shape
  rw [mem_map_valuesAt, mem_map_valuesAt]
  exact hsame.exists_iff _

theorem itemsOf (hsame : SameShapes left right) : SameShapes (itemsOf left) (itemsOf right) := by
  intro shape
  rw [mem_map_itemsOf, mem_map_itemsOf]
  exact hsame.exists_iff _

theorem eq_nil_iff (hsame : SameShapes left right) : left = [] ↔ right = [] := by
  have hempty (nodes : List Node) : nodes = [] ↔ ¬ ∃ shape ∈ nodes.map shapeOf, True := by
    cases nodes <;> simp
  rw [hempty left, hempty right, hsame.exists_iff]

theorem countRank_pos_iff (hsame : SameShapes left right) (rank : ℕ) :
    0 < countRank rank left ↔ 0 < countRank rank right := by
  rw [countRank_pos, countRank_pos]
  exact hsame.exists_iff _

theorem length_valuesAt_lt_iff (hsame : SameShapes left right) (key : String) :
    (Monoid.valuesAt key left).length < countRank 5 left ↔
      (Monoid.valuesAt key right).length < countRank 5 right := by
  rw [length_valuesAt_lt, length_valuesAt_lt]
  exact hsame.exists_iff _

/-- The rendered types are those of the shapes. -/
theorem named_eq (hsame : SameShapes left right) :
    ((typeCounts left).named.filter fun named ↦ 0 < named.2).map Prod.fst =
      ((typeCounts right).named.filter fun named ↦ 0 < named.2).map Prod.fst := by
  have hflag (rank : ℕ) : decide (0 < countRank rank left) = decide (0 < countRank rank right) :=
    decide_eq_decide.mpr (hsame.countRank_pos_iff rank)
  have hseen (named : List (String × ℕ)) : (named.filter fun name ↦ 0 < name.2).map Prod.fst =
      ((named.map fun name ↦ (name.1, decide (0 < name.2))).filter Prod.snd).map Prod.fst := by
    rw [List.filter_map, List.map_map]
    rfl
  rw [hseen, hseen]
  simp only [TypeCounts.named, typeCounts, List.map_cons, hflag]

end SameShapes

/-! ## Comparing views -/

/-- Two children lists have the same views if every key has. -/
theorem childViews_eq_iff {left right : List (String × FieldNode)} (hleft : SortedKeys left)
    (hright : SortedKeys right) (leftDenom rightDenom : ℕ) :
    (left.map fun child ↦ (child.1, child.2.view leftDenom)) =
        (right.map fun child ↦ (child.1, child.2.view rightDenom)) ↔
      ∀ key, (left.lookup key).map (FieldNode.view leftDenom) =
        (right.lookup key).map (FieldNode.view rightDenom) := by
  constructor
  · intro heq key
    rw [← lookup_mapValues, ← lookup_mapValues, heq]
  · intro hlookup
    refine (hleft.mapValues _).ext (hright.mapValues _) fun key ↦ ?_
    rw [lookup_mapValues, lookup_mapValues, hlookup]

theorem forall_path_iff {left right : List Node} :
    SparseAlike left right ↔
      (∀ key, SparseAlike (valuesAt key left) (valuesAt key right)) ∧
        ((itemsOf left).length < countRank 4 left ↔ (itemsOf right).length < countRank 4 right) ∧
        SparseAlike (itemsOf left) (itemsOf right) := by
  constructor
  · exact fun halike ↦ ⟨fun key path ↦ halike (.key key :: path), halike [],
      fun path ↦ halike (.elem :: path)⟩
  · rintro ⟨hkeys, hhere, helem⟩ path
    obtain _ | ⟨_ | _, path⟩ := path
    · exact hhere
    · exact hkeys _ path
    · exact helem path

mutual

/-- Summaries of nodes with the same shapes have one view exactly if their flags agree and the
nodes are sparse alike. -/
theorem Summarizes.view_eq_iff : {left right : FieldNode} → {leftNodes nodes : List Node} →
    Summarizes left leftNodes → Summarizes right nodes → SameShapes leftNodes nodes →
    ∀ leftDenom denom, left.view leftDenom = right.view denom ↔
      (leftNodes.length < leftDenom ↔ nodes.length < denom) ∧ SparseAlike leftNodes nodes
  | left, right, leftNodes, nodes, .intro leftPresent leftTypes leftSorted leftChildren leftElem,
      .intro present types sorted children elem, hsame, leftDenom, denom => by
    have htypes := hsame.named_eq
    have hchildren (key : String) := (leftChildren key).view_eq_iff (children key)
      (hsame.valuesAt key) (countRank 5 leftNodes) (countRank 5 nodes)
    have helem := leftElem.view_eq_iff elem hsame.itemsOf (countRank 4 leftNodes)
      (countRank 4 nodes)
    have hmember (key : String) := hsame.length_valuesAt_lt_iff key
    have hempty : itemsOf leftNodes = [] → ((itemsOf leftNodes).length < countRank 4 leftNodes ↔
        (itemsOf nodes).length < countRank 4 nodes) := by
      intro hnil
      rw [hnil, hsame.itemsOf.eq_nil_iff.mp hnil]
      exact hsame.countRank_pos_iff 4
    rw [Monoid.view_eq, Monoid.view_eq, leftTypes, types, leftPresent, present]
    simp only [View.mk.injEq, decide_eq_decide, htypes, true_and]
    rw [forall_path_iff]
    refine and_congr_right fun _ ↦ and_congr ?_ ?_
    · rw [childViews_eq_iff leftSorted sorted]
      refine forall_congr' fun key ↦ (hchildren key).trans ?_
      exact and_iff_right (.inr (hmember key))
    · refine helem.trans (and_congr_left fun _ ↦ ?_)
      exact or_iff_right_of_imp hempty

theorem SummarizesPart.view_eq_iff : {left right : Option FieldNode} →
    {leftNodes nodes : List Node} → SummarizesPart left leftNodes → SummarizesPart right nodes →
    SameShapes leftNodes nodes → ∀ leftDenom denom,
      left.map (FieldNode.view leftDenom) = right.map (FieldNode.view denom) ↔
        (leftNodes = [] ∨ (leftNodes.length < leftDenom ↔ nodes.length < denom)) ∧
          SparseAlike leftNodes nodes
  | _, _, _, _, .none, .none, _, _, _ => by simp [SparseAlike]
  | _, _, _, _, .none, .some nonempty _, hsame, _, _ => by
    exact absurd (hsame.eq_nil_iff.mp rfl) nonempty
  | _, _, _, _, .some nonempty _, .none, hsame, _, _ => by
    exact absurd (hsame.eq_nil_iff.mpr rfl) nonempty
  | _, _, _, _, .some nonempty leftSummary, .some _ summary, hsame, leftDenom, denom => by
    rw [Option.map_some, Option.map_some, Option.some.injEq,
      leftSummary.view_eq_iff summary hsame leftDenom denom, or_iff_right nonempty]

end

/-! ## Sequences of documents -/

/-- The same generalized JSON and the same generalized fingerprint. -/
def SameIdentity (sha256 : Bytes → Digest) (left right : Profile) : Prop :=
  left.generalizedCanonicalJson = right.generalizedCanonicalJson ∧
    left.generalizedFingerprint sha256 = right.generalizedFingerprint sha256

/-- Sequences with the same set of shapes have one identity exactly if they are sparse alike. -/
theorem sameIdentity_iff (sha256 : Bytes → Digest) {left right : List Node}
    (hsame : SameShapes left right) :
    SameIdentity sha256 (profileOf left) (profileOf right) ↔ SparseAlike left right := by
  obtain ⟨hleftCount, hleft⟩ := profileOf_summarizes left
  obtain ⟨hrightCount, hright⟩ := profileOf_summarizes right
  have hview := hleft.view_eq_iff hright hsame left.length right.length
  rw [and_iff_right (by simp)] at hview
  rw [← hview, ← hleftCount, ← hrightCount, ← generalizedCanonicalJson_eq_iff]
  refine and_iff_left_of_imp fun hjson ↦ ?_
  unfold Profile.generalizedFingerprint
  rw [hjson]

/-- The generalized identity of documents is fixed by their shapes, and not changed by repeating
one, exactly as far as the positions are sparse alike. -/
theorem generalized_identity_iff (sha256 : Bytes → Digest) :
    (∀ left right : List Node, left.map shapeOf = right.map shapeOf →
      (SameIdentity sha256 (profileOf left) (profileOf right) ↔ SparseAlike left right)) ∧
    ∀ (before after : List Node), ∀ doc ∈ before ++ after,
      (SameIdentity sha256 (profileOf (before ++ doc :: after)) (profileOf (before ++ after)) ↔
        SparseAlike (before ++ doc :: after) (before ++ after)) := by
  constructor
  · intro left right hshapes
    exact sameIdentity_iff sha256 fun shape ↦ by rw [hshapes]
  · intro before after doc hdoc
    refine sameIdentity_iff sha256 fun shape ↦ ?_
    have hshape : shapeOf doc ∈ (before ++ after).map shapeOf := List.mem_map_of_mem hdoc
    simp only [List.map_append, List.map_cons, List.mem_append, List.mem_cons] at hshape ⊢
    constructor
    · rintro (hbefore | rfl | hafter)
      · exact .inl hbefore
      · exact hshape
      · exact .inr hafter
    · rintro (hbefore | hafter)
      · exact .inl hbefore
      · exact .inr (.inr hafter)

/-- One element more in one of two arrays changes the identity. -/
theorem element_count_changes_identity :
    ([Node.array [.bool true] false, .array [] false].map shapeOf =
      [Node.array [.bool true, .bool true] false, .array [] false].map shapeOf) ∧
    (profileOf [.array [.bool true] false, .array [] false]).generalizedCanonicalJson ≠
      (profileOf [.array [.bool true, .bool true] false,
        .array [] false]).generalizedCanonicalJson := by
  refine ⟨rfl, ?_⟩
  decide +kernel

end Deblob.Monoid
