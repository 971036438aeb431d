import Deblob.Fingerprint.Canon
import Deblob.Monoid.Generalized
import Deblob.Semantic.JsonText

/-!
# Canonical forms as JSON texts

The canonical bytes of a shape and the generalized JSON of a profile are the texts of two trees.
Both are nested about twice as deep as the documents they come from.
-/

namespace Deblob.Semantic

open Core Lib Fingerprint Deblob.Monoid
open Umbrella (Value)

/-! ## The canonical forms as texts -/

mutual

def shapeText : Shape → JsonText
  | .null => .object [("t", .string "null")]
  | .bool => .object [("t", .string "bool")]
  | .number => .object [("t", .string "num")]
  | .string => .object [("t", .string "str")]
  | .array elements emptiness => .object [("t", .string "arr"),
      ("e", .string (emptinessStr emptiness)), ("of", .array (elementTexts elements))]
  | .object fields => .object [("t", .string "obj"), ("f", .object (fieldTexts fields))]

def elementTexts : List Shape → List JsonText
  | [] => []
  | element :: elements => shapeText element :: elementTexts elements

def fieldTexts : List (String × Shape) → List (String × JsonText)
  | [] => []
  | (key, value) :: fields => (key, shapeText value) :: fieldTexts fields

end

mutual

def viewText : View → JsonText
  | ⟨optional, types, children, elem⟩ =>
    .object ([("optional", .bool optional), ("types", .array (types.map .string))] ++
      ((if children.isEmpty then [] else [("children", .object (childTexts children))]) ++
        elemTexts elem))

def childTexts : List (String × View) → List (String × JsonText)
  | [] => []
  | (key, child) :: children => (key, viewText child) :: childTexts children

def elemTexts : Option View → List (String × JsonText)
  | none => []
  | some elem => [("elem", viewText elem)]

end

def profileText (profile : Profile) : JsonText := viewText (profile.root.view profile.count)

mutual

theorem writeShape_eq : (shape : Shape) → writeShape shape = (shapeText shape).write
  | .null | .bool | .number | .string => by rfl
  | .array elements emptiness => by
    have hopen (tail : List UInt8) : ascii "\x7b\"t\":\"arr\",\"e\":\"" ++
        (ascii (emptinessStr emptiness) ++ (ascii "\",\"of\":[" ++ tail)) =
          ascii "\x7b\"t\":\"arr\",\"e\":" ++ (writeJsonString (emptinessStr emptiness) ++
            (ascii ",\"of\":[" ++ tail)) := by
      cases emptiness <;> rfl
    have hclose : ascii "]\x7d" = ascii "]" ++ ([] ++ ascii "\x7d") := rfl
    rw [writeShape, writeShapeSet_write true elements, hopen, hclose]
    simp only [shapeText, JsonText.write, writeMembers, List.append_assoc]
    rfl
  | .object fields => by
    have hclose : ascii "\x7d\x7d" = ascii "\x7d" ++ ([] ++ ascii "\x7d") := rfl
    rw [writeShape, writeFields_write true fields, hclose]
    simp only [shapeText, JsonText.write, writeMembers, List.append_assoc]
    rfl

theorem writeShapeSet_write (isFirst : Bool) : (elements : List Shape) →
    writeShapeSet isFirst elements = writeItems isFirst (elementTexts elements)
  | [] => rfl
  | element :: elements => by
    rw [writeShapeSet, elementTexts, writeItems, writeShape_eq element,
      writeShapeSet_write false elements]

theorem writeFields_write (isFirst : Bool) : (fields : List (String × Shape)) →
    writeFields isFirst fields = writeMembers isFirst (fieldTexts fields)
  | [] => rfl
  | (key, value) :: fields => by
    rw [writeFields, fieldTexts, writeMembers, writeShape_eq value,
      writeFields_write false fields]

end

theorem canonicalBytes_eq (shape : Shape) : canonicalBytes shape = (shapeText shape).write :=
  writeShape_eq shape

theorem writeItems_strings (isFirst : Bool) (names : List String) :
    writeItems isFirst (names.map .string) = separated 0x2C writeJsonString isFirst names := by
  induction names generalizing isFirst with
  | nil => rfl
  | cons name names ih =>
      rw [List.map_cons, writeItems, separated, ih]
      rfl

theorem writeMembers_append (members more : List (String × JsonText)) :
    writeMembers false (members ++ more) =
      writeMembers false members ++ writeMembers false more := by
  induction members with
  | nil => rfl
  | cons member members ih =>
      rw [List.cons_append, writeMembers, writeMembers, ih]
      simp only [List.append_assoc]

mutual

theorem writeView_eq : (view : View) → writeView view = (viewText view).write
  | ⟨optional, types, children, elem⟩ => by
    have hchildren : (if children.isEmpty then [] else ascii ",\"children\":\x7b" ++
        (writeChildViews true children ++ ascii "\x7d")) = writeMembers false
          (if children.isEmpty then [] else [("children", .object (childTexts children))]) := by
      rw [writeChildViews_write true children]
      split_ifs
      · rfl
      · simp only [writeMembers, JsonText.write, List.append_nil]
        rfl
    have hopen (tail : List UInt8) : ascii "\x7b\"optional\":" ++
        (ascii (if optional then "true" else "false") ++ (ascii ",\"types\":[" ++ tail)) =
          ascii "\x7b" ++ (writeJsonString "optional" ++ (ascii ":" ++
            (ascii (if optional then "true" else "false") ++ (ascii "," ++
              (writeJsonString "types" ++ (ascii ":" ++ (ascii "[" ++ tail))))))) := by
      cases optional <;> rfl
    rw [writeView, hchildren, writeElemView_write elem, ← writeItems_strings, hopen]
    simp only [viewText, JsonText.write, List.cons_append, List.nil_append, writeMembers,
      writeMembers_append, List.append_assoc]
    rfl

theorem writeChildViews_write (isFirst : Bool) : (children : List (String × View)) →
    writeChildViews isFirst children = writeMembers isFirst (childTexts children)
  | [] => rfl
  | (key, child) :: children => by
    rw [writeChildViews, childTexts, writeMembers, writeView_eq child,
      writeChildViews_write false children]
    rfl

theorem writeElemView_write : (elem : Option View) →
    writeElemView elem = writeMembers false (elemTexts elem)
  | none => rfl
  | some elem => by
    rw [writeElemView, writeView_eq elem]
    simp [elemTexts, writeMembers]
    rfl

end

theorem generalizedCanonicalJson_eq (profile : Profile) :
    profile.generalizedCanonicalJson = (profileText profile).write := by
  rw [Profile.generalizedCanonicalJson, writeGeneralizedField_eq, writeView_eq, profileText]

theorem elementTexts_eq (elements : List Shape) :
    elementTexts elements = elements.map shapeText := by
  induction elements with
  | nil => rfl
  | cons element elements ih => rw [elementTexts, ih, List.map_cons]

theorem fieldTexts_eq (fields : List (String × Shape)) :
    fieldTexts fields = fields.map fun field ↦ (field.1, shapeText field.2) := by
  induction fields with
  | nil => rfl
  | cons field fields ih => rw [fieldTexts, ih, List.map_cons]

theorem childTexts_eq (children : List (String × View)) :
    childTexts children = children.map fun child ↦ (child.1, viewText child.2) := by
  induction children with
  | nil => rfl
  | cons child children ih => rw [childTexts, ih, List.map_cons]

theorem value_arrayText (elements : List Shape) (emptiness : Emptiness) :
    (shapeText (.array elements emptiness)).value =
      .object [("e", .string (emptinessStr emptiness)),
        ("of", .array (itemValues (elementTexts elements))), ("t", .string "arr")] := by
  have horder : "e" < "t" ∧ ¬ "of" < "e" ∧ "of" ≠ "e" ∧ "of" < "t" := by decide
  simp only [shapeText, JsonText.value, memberValues, collectMap, List.foldl_cons, List.foldl_nil,
    insertWith, horder, if_true, if_false]

theorem value_objectText (fields : List (String × Shape)) :
    (shapeText (.object fields)).value =
      .object [("f", .object (collectMap (memberValues (fieldTexts fields)))),
        ("t", .string "obj")] := by
  have horder : "f" < "t" := by decide
  simp only [shapeText, JsonText.value, memberValues, collectMap, List.foldl_cons, List.foldl_nil,
    insertWith, horder, if_true]

/-- The members of a field in the order of their names. -/
def monoidEntries {α : Type} (optional types : α) (children elem : Option α) : List (String × α) :=
  children.toList.map (("children", ·)) ++
    (elem.toList.map (("elem", ·)) ++ [("optional", optional), ("types", types)])

theorem collectMap_monoidMembers {α : Type} (optional types : α) (children elem : Option α) :
    collectMap ([("optional", optional), ("types", types)] ++
      (children.toList.map (("children", ·)) ++ elem.toList.map (("elem", ·)))) =
        monoidEntries optional types children elem := by
  have horder : ¬ "types" < "optional" ∧ "types" ≠ "optional" ∧ "children" < "optional" ∧
      "elem" < "optional" ∧ ¬ "elem" < "children" ∧ "elem" ≠ "children" := by
    decide
  cases children <;> cases elem <;>
    simp only [monoidEntries, Option.toList_none, Option.toList_some, List.map_cons, List.map_nil,
      List.nil_append, List.append_nil, List.cons_append, collectMap, List.foldl_cons,
      List.foldl_nil, insertWith, horder, if_true, if_false]

/-- What is read of a profile: the members of a field in the order of their names. -/
theorem value_viewText (optional : Bool) (types : List String) (children : List (String × View))
    (elem : Option View) :
    (viewText ⟨optional, types, children, elem⟩).value =
      .object (monoidEntries (.bool optional) (.array (itemValues (types.map .string)))
        ((if children.isEmpty then none else
          some (collectMap (memberValues (childTexts children)))).map .object)
        (elem.map fun elem ↦ (viewText elem).value)) := by
  rw [← collectMap_monoidMembers, viewText, JsonText.value, memberValues_eq]
  cases children <;> cases elem <;> rfl

/-- What is read of a field whose children are sorted. -/
theorem value_fieldText {field : FieldNode} (hkeys : SortedKeys field.children) (denom : ℕ) :
    (viewText (field.view denom)).value =
      .object (monoidEntries (.bool (field.present < denom))
        (.array (((field.types.named.filter fun named ↦ 0 < named.2).map Prod.fst).map .string))
        ((if field.children.isEmpty then none else
          some (field.children.map fun child ↦
            (child.1, (viewText (child.2.view field.types.object)).value))).map .object)
        (field.arrayElem.map fun elem ↦ (viewText (elem.view field.types.array)).value)) := by
  have hchildren : collectMap (memberValues (childTexts (field.children.map fun child ↦
      (child.1, child.2.view field.types.object)))) =
        field.children.map fun child ↦
          (child.1, (viewText (child.2.view field.types.object)).value) := by
    rw [memberValues_eq, childTexts_eq, List.map_map, List.map_map]
    exact (hkeys.mapValues fun child ↦
      (viewText (child.view field.types.object)).value).collectMap_eq
  have hstrings (types : List String) : itemValues (types.map .string) = types.map .string := by
    rw [itemValues_eq, List.map_map]
    rfl
  rw [view_eq, value_viewText, hstrings, hchildren, List.isEmpty_map, Option.map_map]
  rfl

/-! ## Nesting -/

mutual

/-- How many arrays and objects of a document are inside each other. -/
def nodeDepth : Node → ℕ
  | .array items _ => itemsDepth items + 1
  | .object fields => fieldsDepth fields + 1
  | _ => 0

def itemsDepth : List Node → ℕ
  | [] => 0
  | item :: items => max (nodeDepth item) (itemsDepth items)

def fieldsDepth : List (String × Node) → ℕ
  | [] => 0
  | (_, value) :: fields => max (nodeDepth value) (fieldsDepth fields)

end

theorem itemsDepth_le {items : List Node} {bound : ℕ} :
    itemsDepth items ≤ bound ↔ ∀ item ∈ items, nodeDepth item ≤ bound := by
  induction items with
  | nil => simp [itemsDepth]
  | cons item items ih => rw [itemsDepth, max_le_iff, List.forall_mem_cons, ih]

theorem fieldsDepth_le {fields : List (String × Node)} {bound : ℕ} :
    fieldsDepth fields ≤ bound ↔ ∀ field ∈ fields, nodeDepth field.2 ≤ bound := by
  induction fields with
  | nil => simp [fieldsDepth]
  | cons field fields ih => rw [fieldsDepth, max_le_iff, List.forall_mem_cons, ih]

theorem itemNesting_le {items : List JsonText} {bound : ℕ} :
    itemNesting items ≤ bound ↔ ∀ item ∈ items, item.nesting ≤ bound := by
  induction items with
  | nil => simp [itemNesting]
  | cons item items ih => rw [itemNesting, max_le_iff, List.forall_mem_cons, ih]

theorem memberNesting_le {members : List (String × JsonText)} {bound : ℕ} :
    memberNesting members ≤ bound ↔ ∀ member ∈ members, member.2.nesting ≤ bound := by
  induction members with
  | nil => simp [memberNesting]
  | cons member members ih => rw [memberNesting, max_le_iff, List.forall_mem_cons, ih]

mutual

/-- Every level of a document is written as two levels of its shape. -/
theorem nesting_shapeText_le : (node : Node) →
    (shapeText (shapeOf node)).nesting ≤ 2 * nodeDepth node + 1
  | .null | .bool _ | .number _ | .string _ => le_rfl
  | .array items truncated => by
    have hitems : itemNesting (elementTexts (collectSet Shape.cmp (shapesOf items))) ≤
        2 * itemsDepth items + 1 := by
      rw [itemNesting_le, elementTexts_eq, List.forall_mem_map]
      intro element helement
      rw [mem_collectSet Shape.eq_of_cmp, shapesOf_eq] at helement
      rcases List.mem_map.mp helement with ⟨item, hitem, rfl⟩
      exact nesting_items_le items item hitem
    simp only [shapeOf, shapeText, JsonText.nesting, memberNesting, nodeDepth]
    omega
  | .object fields => by
    have hfields : memberNesting (fieldTexts (collectMap (fieldShapesOf fields))) ≤
        2 * fieldsDepth fields + 1 := by
      rw [memberNesting_le, fieldTexts_eq, List.forall_mem_map]
      intro field hfield
      have hmem := mem_of_mem_collectMap hfield
      rw [fieldShapesOf_eq] at hmem
      rcases List.mem_map.mp hmem with ⟨member, hmember, rfl⟩
      exact nesting_fields_le fields member hmember
    simp only [shapeOf, shapeText, JsonText.nesting, memberNesting, nodeDepth]
    omega

theorem nesting_items_le : (items : List Node) → ∀ item ∈ items,
    (shapeText (shapeOf item)).nesting ≤ 2 * itemsDepth items + 1
  | [] => by simp
  | item :: items => by
    have hitem := nesting_shapeText_le item
    have hitems := nesting_items_le items
    rw [List.forall_mem_cons, itemsDepth]
    refine ⟨by omega, fun other hother ↦ ?_⟩
    have hle := hitems other hother
    omega

theorem nesting_fields_le : (fields : List (String × Node)) → ∀ field ∈ fields,
    (shapeText (shapeOf field.2)).nesting ≤ 2 * fieldsDepth fields + 1
  | [] => by simp
  | (_, value) :: fields => by
    have hvalue := nesting_shapeText_le value
    have hfields := nesting_fields_le fields
    rw [List.forall_mem_cons, fieldsDepth]
    refine ⟨by dsimp only; omega, fun other hother ↦ ?_⟩
    have hle := hfields other hother
    omega

end

theorem nodeDepth_lt_of_valueAt {key : String} {node value : Node}
    (hvalue : node.valueAt key = some value) : nodeDepth value < nodeDepth node := by
  cases node with
  | object fields =>
      have hmem : (key, value) ∈ fields := List.mem_reverse.mp (mem_of_getEntry hvalue)
      exact Nat.lt_succ_of_le (fieldsDepth_le.mp le_rfl (key, value) hmem)
  | _ => cases hvalue

theorem nodeDepth_lt_of_mem_items {node item : Node} (hitem : item ∈ node.items) :
    nodeDepth item < nodeDepth node := by
  cases node with
  | array items truncated =>
      exact Nat.lt_succ_of_le (itemsDepth_le.mp le_rfl item hitem)
  | _ => cases hitem

/-- The text of a view is one level around its types, its children and its element. -/
theorem nesting_viewText_succ_le {view : View} {bound : ℕ} (hbound : 2 ≤ bound)
    (hchildren : ∀ child ∈ view.children, (viewText child.2).nesting + 2 ≤ bound)
    (helem : ∀ elem ∈ view.elem, (viewText elem).nesting + 1 ≤ bound) :
    (viewText view).nesting ≤ bound := by
  rcases view with ⟨optional, types, children, elem⟩
  have htypes : itemNesting (types.map .string) = 0 := by
    apply Nat.le_zero.mp
    rw [itemNesting_le, List.forall_mem_map]
    exact fun _ _ ↦ le_rfl
  have hmembers : ∀ member ∈ childTexts children, member.2.nesting + 2 ≤ bound := by
    rw [childTexts_eq, List.forall_mem_map]
    exact hchildren
  have hsub : memberNesting (childTexts children) ≤ bound - 2 := by
    rw [memberNesting_le]
    intro member hmember
    have hle := hmembers member hmember
    omega
  have hparts : memberNesting ([("optional", .bool optional),
      ("types", .array (types.map .string))] ++
        ((if children.isEmpty then [] else [("children", .object (childTexts children))]) ++
          elemTexts elem)) ≤ bound - 1 := by
    rw [memberNesting_le]
    intro member hmember
    rcases List.mem_append.mp hmember with hfirst | hmember
    · rcases List.mem_pair.mp hfirst with rfl | rfl
      · exact Nat.zero_le _
      · simp only [JsonText.nesting, htypes]
        omega
    · rcases List.mem_append.mp hmember with hchild | helemText
      · split_ifs at hchild
        · cases hchild
        · cases List.mem_singleton.mp hchild
          simp only [JsonText.nesting]
          omega
      · cases elem with
        | none => cases helemText
        | some elem =>
            cases List.mem_singleton.mp helemText
            have hle := helem elem rfl
            dsimp only
            omega
  rw [viewText, JsonText.nesting]
  omega

mutual

/-- Every level of the documents is written as two levels of their profile. -/
theorem nesting_viewText_le : {field : FieldNode} → {nodes : List Node} →
    Summarizes field nodes → (denom bound : ℕ) → (∀ node ∈ nodes, nodeDepth node ≤ bound) →
      (viewText (field.view denom)).nesting ≤ 2 * bound + 2
  | field, nodes, .intro _ _ sorted children elem, denom, bound, hnodes => by
    have hvalues (key : String) : ∀ value ∈ valuesAt key nodes, nodeDepth value < bound := by
      intro value hvalue
      rcases List.mem_filterMap.mp hvalue with ⟨node, hnode, hat⟩
      exact (nodeDepth_lt_of_valueAt hat).trans_le (hnodes node hnode)
    have hitems : ∀ item ∈ itemsOf nodes, nodeDepth item < bound := by
      intro item hitem
      rcases List.mem_flatMap.mp hitem with ⟨node, hnode, hmem⟩
      exact (nodeDepth_lt_of_mem_items hmem).trans_le (hnodes node hnode)
    rw [view_eq]
    apply nesting_viewText_succ_le (by omega)
    · rw [List.forall_mem_map]
      intro child hchild
      have hpart := nesting_part_le (children child.1) field.types.object bound (hvalues child.1)
      have hle := hpart child.2 (sorted.mem_iff.mp hchild)
      dsimp only
      omega
    · intro view hview
      rcases Option.map_eq_some_iff.mp hview with ⟨elemField, helem, rfl⟩
      have hle := nesting_part_le elem field.types.array bound hitems elemField helem
      omega

theorem nesting_part_le : {part : Option FieldNode} → {nodes : List Node} →
    SummarizesPart part nodes → (denom bound : ℕ) → (∀ node ∈ nodes, nodeDepth node < bound) →
      ∀ field ∈ part, (viewText (field.view denom)).nesting ≤ 2 * bound
  | _, _, .none, _, _, _ => fun _ hfield ↦ nomatch hfield
  | _, nodes, .some nonempty summary, denom, bound, hnodes => by
    intro field hfield
    cases Option.mem_some_iff.mp hfield
    rcases List.exists_mem_of_ne_nil nodes nonempty with ⟨node, hnode⟩
    have hpositive := hnodes node hnode
    have hle := nesting_viewText_le summary denom (bound - 1) fun node hnode ↦
      Nat.le_sub_one_of_lt (hnodes node hnode)
    omega

end

end Deblob.Semantic
