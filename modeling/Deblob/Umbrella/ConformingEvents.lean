import Deblob.Monoid.Counters
import Deblob.Umbrella.ChildFields
import Deblob.Umbrella.Path

/-!
# Events that conform to a published schema

An event conforms to a generalized field if its type was seen, its members are children, none that
is not optional is missing, and its items conform to the element. The documents behind a field
conform to it, and every observed field has a conforming event in which all its leaves are present.
-/

namespace Deblob.Umbrella

open Core Lib Fingerprint Deblob.Monoid

def valueTag : Value → String
  | .null => "null"
  | .bool _ => "bool"
  | .number _ => "number"
  | .string _ => "string"
  | .array _ => "array"
  | .object _ => "object"

mutual

def conformsTo : Value → View → Bool
  | .array items, view => "array" ∈ view.types && itemsConform items view.elem
  | .object entries, view =>
    "object" ∈ view.types && entriesConform entries view.children &&
      view.children.all fun child ↦ child.2.optional || (entries.lookup child.1).isSome
  | value, view => valueTag value ∈ view.types

def itemsConform : List Value → Option View → Bool
  | [], _ => true
  | item :: items, elem => elem.any (conformsTo item) && itemsConform items elem

def entriesConform : List (String × Value) → List (String × View) → Bool
  | [], _ => true
  | (key, value) :: entries, children =>
    (children.lookup key).any (conformsTo value) && entriesConform entries children

end

theorem entriesConform_eq (entries : List (String × Value)) (children : List (String × View)) :
    entriesConform entries children =
      entries.all fun entry ↦ (children.lookup entry.1).any (conformsTo entry.2) := by
  induction entries with
  | nil => rfl
  | cons entry entries ih => rw [entriesConform, ih, List.all_cons]

/-! ## Documents conform -/

mutual

/-- The value of a parsed document; a later member replaces an earlier one. -/
def nodeValue : Node → Value
  | .null => .null
  | .bool value => .bool value
  | .number text => .number (.literal text)
  | .string text => .string text
  | .array items _ => .array (nodeItems items)
  | .object fields => .object (collectMap (nodeMembers fields))

def nodeItems : List Node → List Value
  | [] => []
  | item :: items => nodeValue item :: nodeItems items

def nodeMembers : List (String × Node) → List (String × Value)
  | [] => []
  | (key, value) :: fields => (key, nodeValue value) :: nodeMembers fields

end

theorem nodeMembers_eq (fields : List (String × Node)) :
    nodeMembers fields = fields.map fun field ↦ (field.1, nodeValue field.2) := by
  induction fields with
  | nil => rfl
  | cons field fields ih => rw [nodeMembers, ih, List.map_cons]

theorem itemsConform_nodeItems {items : List Node} {elem : Option View}
    (hitems : ∀ item ∈ items, elem.any (conformsTo (nodeValue item))) :
    itemsConform (nodeItems items) elem := by
  induction items with
  | nil => rfl
  | cons item items ih =>
      rw [List.forall_mem_cons] at hitems
      rw [nodeItems, itemsConform, hitems.1, ih hitems.2]
      rfl

theorem lookup_nodeMembers (fields : List (String × Node)) (key : String) :
    (collectMap (nodeMembers fields)).lookup key =
      ((Node.object fields).valueAt key).map nodeValue := by
  rw [lookup_collectMap, nodeMembers_eq, ← List.map_reverse, lookup_mapValues]
  rfl

theorem nodeTag_mem_seenTypes {node : Node} {nodes : List Node} (hnode : node ∈ nodes) :
    nodeTag node ∈ seenTypes (typeCounts nodes) :=
  List.mem_map.mpr ⟨_, List.mem_filter.mpr
    ⟨named_nodeTag node nodes, decide_eq_true (countRank_pos_of_mem hnode)⟩, rfl⟩

/-- A member that some object lacks is optional. -/
theorem present_lt_of_missing {child : FieldNode} {key : String} {nodes : List Node} {node : Node}
    (hchild : Summarizes child (valuesAt key nodes)) (hnode : node ∈ nodes)
    (hobject : node.rank = 5) (hmissing : node.valueAt key = none) :
    child.present < (typeCounts nodes).object := by
  cases hchild with
  | intro present _ _ _ _ =>
      rw [present]
      exact length_valuesAt_lt_object.mpr ⟨node, hnode, hobject, hmissing⟩

mutual

/-- The documents of a field conform to what is published of it. -/
theorem Summarizes.conforms : {field : FieldNode} → {nodes : List Node} →
    Summarizes field nodes → ∀ node ∈ nodes, ∀ denom, conformsTo (nodeValue node) (field.view denom)
  | field, nodes, .intro present types sorted children elem, node, hnode, denom => by
    have htag : nodeTag node ∈ (field.view denom).types := by
      rw [view_eq, types]
      exact nodeTag_mem_seenTypes hnode
    cases node with
    | null => exact decide_eq_true htag
    | bool value => exact decide_eq_true htag
    | number text => exact decide_eq_true htag
    | string text => exact decide_eq_true htag
    | array items truncated =>
        rw [nodeValue, conformsTo, Bool.and_eq_true_iff]
        refine ⟨decide_eq_true htag, itemsConform_nodeItems fun item hitem ↦ ?_⟩
        rw [view_eq]
        exact SummarizesPart.conforms elem item (List.mem_flatMap.mpr ⟨_, hnode, hitem⟩) _
    | object fields =>
        have hvalueAt (key : String) : (collectMap (nodeMembers fields)).lookup key =
            ((Node.object fields).valueAt key).map nodeValue := lookup_nodeMembers fields key
        rw [nodeValue, conformsTo, entriesConform_eq, Bool.and_eq_true_iff, Bool.and_eq_true_iff,
          List.all_eq_true, List.all_eq_true]
        refine ⟨⟨decide_eq_true htag, fun entry hentry ↦ ?_⟩, fun child hchild ↦ ?_⟩
        · have hlookup := (sortedKeys_collectMap _).mem_iff.mp hentry
          rw [hvalueAt, Option.map_eq_some_iff] at hlookup
          rcases hlookup with ⟨value, hvalue, heq⟩
          rw [children_view, ← heq]
          exact SummarizesPart.conforms (children entry.1) value
            (List.mem_filterMap.mpr ⟨_, hnode, hvalue⟩) _
        · rw [hvalueAt, Option.isSome_map]
          rw [view_eq] at hchild
          rcases List.mem_map.mp hchild with ⟨below, hbelow, rfl⟩
          have hsummary := summary_of_part (children below.1) (sorted.mem_iff.mp hbelow)
          cases hvalue : (Node.object fields).valueAt below.1 with
          | some value => exact Bool.or_true _
          | none =>
              have hmissing := present_lt_of_missing hsummary hnode rfl hvalue
              rw [optional_view, types, decide_eq_true hmissing]
              rfl

theorem SummarizesPart.conforms : {part : Option FieldNode} → {nodes : List Node} →
    SummarizesPart part nodes → ∀ node ∈ nodes, ∀ denom,
      (part.map (FieldNode.view denom)).any (conformsTo (nodeValue node))
  | _, _, .some _ summary, node, hnode, denom => Summarizes.conforms summary node hnode denom

end

/-! ## An event with all leaves -/

def leafExample (types : List String) : Value :=
  if "array" ∈ types then .array []
  else if leadingType types = some "bool" then .bool true
  else if leadingType types = some "number" then .number (.literal "0")
  else if leadingType types = some "string" then .string ""
  else if leadingType types = some "object" then .object []
  else .null

mutual

def exampleOf : FieldNode → Value
  | ⟨_, _, types, children, _, _, _, _, _, _⟩ =>
    if children.isEmpty then leafExample (seenTypes types) else .object (exampleEntries children)

def exampleEntries : List (String × FieldNode) → List (String × Value)
  | [] => []
  | (key, child) :: children => (key, exampleOf child) :: exampleEntries children

end

theorem exampleEntries_eq (children : List (String × FieldNode)) :
    exampleEntries children = children.map fun child ↦ (child.1, exampleOf child.2) := by
  induction children with
  | nil => rfl
  | cons child children ih => rw [exampleEntries, ih, List.map_cons]

theorem exampleOf_eq (field : FieldNode) :
    exampleOf field =
      if field.children.isEmpty then leafExample (fieldTypes field)
      else .object (field.children.map fun child ↦ (child.1, exampleOf child.2)) := by
  cases field
  rw [exampleOf, exampleEntries_eq]
  rfl

theorem mem_of_leadingType {types : List String} {tag : String}
    (hleading : leadingType types = some tag) : tag ∈ types := by
  rcases Option.or_eq_some_iff.mp hleading with hfirst | ⟨-, hhead⟩
  · exact List.mem_of_find?_eq_some hfirst
  · exact List.mem_of_mem_head? hhead

theorem exists_leadingType {types : List String} (htypes : types ≠ []) :
    ∃ tag, leadingType types = some tag := by
  rcases List.exists_cons_of_ne_nil htypes with ⟨first, rest, rfl⟩
  rw [leadingType, List.head?_cons, Option.or_some]
  exact ⟨_, rfl⟩

theorem mem_typeNames_of_seen {types : TypeCounts} {name : String}
    (hname : name ∈ seenTypes types) :
    name ∈ ["array", "bool", "null", "number", "object", "string"] := by
  rcases List.mem_map.mp hname with ⟨named, hnamed, rfl⟩
  exact List.mem_map_of_mem (f := Prod.fst) (List.mem_filter.mp hnamed).1

theorem conformsTo_leafExample {types : TypeCounts} (htypes : seenTypes types ≠ []) {view : View}
    (hview : view.types = seenTypes types) (hchildren : view.children = []) :
    conformsTo (leafExample (seenTypes types)) view := by
  rcases exists_leadingType htypes with ⟨tag, hleading⟩
  have htag := mem_of_leadingType hleading
  have hname := mem_typeNames_of_seen htag
  rw [← hview] at htag
  unfold leafExample
  rw [hleading]
  simp only [Option.some.injEq]
  split_ifs with harray hbool hnumber hstring hobject
  · simp [conformsTo, itemsConform, hview, harray]
  · simpa [conformsTo, valueTag, ← hbool] using htag
  · simpa [conformsTo, valueTag, ← hnumber] using htag
  · simpa [conformsTo, valueTag, ← hstring] using htag
  · simpa [conformsTo, entriesConform, hchildren, ← hobject] using htag
  · have hnotArray : tag ≠ "array" := fun heq ↦ harray (hview ▸ heq ▸ htag)
    have hnull : tag = "null" := by
      simp only [List.mem_cons, List.not_mem_nil, or_false] at hname
      tauto
    simpa [conformsTo, valueTag, ← hnull] using htag

/-- The example of an observed field conforms to what is published of it. -/
theorem conformsTo_exampleOf {field : FieldNode} (hobserved : FieldNode.Observed field)
    (denom : ℕ) : conformsTo (exampleOf field) (field.view denom) := by
  induction hobserved generalizing denom with
  | @intro field keys typed object children ih =>
      rw [exampleOf_eq]
      by_cases hempty : field.children = []
      · have htypes : fieldTypes field ≠ [] := by
          rcases typed with ⟨named, hnamed, hpositive⟩
          exact List.ne_nil_of_mem (List.mem_map_of_mem
            (List.mem_filter.mpr ⟨hnamed, decide_eq_true hpositive⟩))
        rw [hempty, List.isEmpty_nil, if_pos rfl]
        exact conformsTo_leafExample htypes (by rw [view_eq]; rfl) (by rw [view_eq, hempty]; rfl)
      · have hisEmpty : field.children.isEmpty = false := by simpa using hempty
        have hlookup (child : String × FieldNode) (hchild : child ∈ field.children) :
            field.children.lookup child.1 = some child.2 := keys.mem_iff.mp hchild
        rw [hisEmpty, if_neg Bool.false_ne_true, view_eq, conformsTo, entriesConform_eq,
          Bool.and_eq_true_iff, Bool.and_eq_true_iff]
        refine ⟨⟨decide_eq_true (object_mem_fieldTypes (object hempty)), ?_⟩, ?_⟩
        · rw [List.all_map, List.all_eq_true]
          intro child hchild
          simp only [Function.comp_apply]
          rw [lookup_mapValues, hlookup child hchild]
          exact ih child hchild _
        · rw [List.all_map, List.all_eq_true]
          intro child hchild
          simp only [Function.comp_apply]
          rw [lookup_mapValues, hlookup child hchild]
          exact Bool.or_true _

/-! ## What is read from the example -/

/-- A leaf is found under its keys. -/
theorem getAt_exampleOf {field leaf : FieldNode} (hobserved : FieldNode.Observed field)
    {keys : List String} (hleaf : (keys, leaf) ∈ keyedLeaves field) :
    (exampleOf field).getAt keys = some (leafExample (fieldTypes leaf)) := by
  induction hobserved generalizing keys with
  | @intro field sorted typed object children ih =>
      rw [keyedLeaves_eq] at hleaf
      rw [exampleOf_eq]
      split_ifs at hleaf ⊢ with hempty
      · obtain ⟨rfl, rfl⟩ := Prod.mk.inj (List.mem_singleton.mp hleaf)
        exact Value.getAt_nil _
      · rcases List.mem_flatMap.mp hleaf with ⟨child, hchild, hbelow⟩
        rcases List.mem_map.mp hbelow with ⟨below, hmem, heq⟩
        obtain ⟨rfl, rfl⟩ := Prod.mk.inj heq
        rw [Value.getAt, lookup_mapValues, sorted.mem_iff.mp hchild]
        exact ih child hchild hmem

/-- What is found in the example and is no object is a leaf. -/
theorem mem_keyedLeaves_of_getAt {field : FieldNode} (hobserved : FieldNode.Observed field)
    {keys : List String} {value : Value} (hget : (exampleOf field).getAt keys = some value)
    (hvalue : value.isObject = false) : ∃ leaf, (keys, leaf) ∈ keyedLeaves field := by
  induction hobserved generalizing keys with
  | @intro field sorted typed object children ih =>
      rw [exampleOf_eq] at hget
      rw [keyedLeaves_eq]
      split_ifs at hget ⊢ with hempty
      · cases keys with
        | nil => exact ⟨field, List.mem_singleton_self _⟩
        | cons key keys =>
            exfalso
            unfold leafExample at hget
            split_ifs at hget <;> cases hget
      · cases keys with
        | nil =>
            rw [Value.getAt_nil, Option.some.injEq] at hget
            rw [← hget] at hvalue
            cases hvalue
        | cons key keys =>
            rw [Value.getAt, lookup_mapValues, Option.bind_eq_some_iff] at hget
            rcases hget with ⟨_, hlookup, hbelow⟩
            rcases Option.map_eq_some_iff.mp hlookup with ⟨child, hchild, rfl⟩
            have hmem := sorted.mem_iff.mpr hchild
            rcases ih (key, child) hmem hbelow with ⟨leaf, hleaf⟩
            exact ⟨leaf, List.mem_flatMap.mpr
              ⟨(key, child), hmem, List.mem_map.mpr ⟨_, hleaf, rfl⟩⟩⟩

/-- The example of a leaf with a scalar type is no object. -/
theorem isObject_leafExample {types elemTypes : List String}
    (htype : (leafScalarType types elemTypes).isSome) : (leafExample types).isObject = false := by
  unfold leafScalarType at htype
  unfold leafExample
  split_ifs with harray hbool hnumber hstring hobject
  · rfl
  · rfl
  · rfl
  · rfl
  · rw [if_neg harray, hobject] at htype
    cases htype
  · rfl

end Deblob.Umbrella
