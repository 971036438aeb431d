import Deblob.Redis.SchemaRecords
import Deblob.Semantic.CanonicalTexts
import Deblob.Semantic.Types
import Deblob.Umbrella.Alignment
import Deblob.Umbrella.ValueLeaves

/-!
# Child fields of a published schema

The leaves of a schema are read from its generalized JSON and annotated by their keys. The path of a
leaf is parsed from its keys with dots between them, and a leaf whose path or type cannot be
represented is left out.
-/

namespace Deblob.Umbrella

open Core Lib Deblob.Monoid Semantic Redis

/-! ## Semantics by path -/

/-- A wildcard is on no path of object keys. -/
def keyPath (path : List PathSegment) : Option (List String) :=
  path.mapM fun
    | .key name => some name
    | .wildcard => none

def semanticByPath (metadata : SemanticMetadata) : List (List String × FieldSemantics) :=
  metadata.fields.filterMap fun entry ↦ (keyPath entry.path).map fun keys ↦ (keys, entry.semantics)

/-- Of two entries with one path the later one is found. -/
def findSemantics (semantics : List (List String × FieldSemantics)) (path : List String) :
    Option FieldSemantics :=
  semantics.reverse.lookup path

/-! ## Leaves -/

/-- The strings of a `types` array. -/
def typeNames : Option Value → List String
  | some (.array types) => types.filterMap fun
    | .string name => some name
    | _ => none
  | _ => []

def elemTypeNames (entries : List (String × Value)) : List String :=
  match getEntry entries "elem" with
  | some (.object elem) => typeNames (getEntry elem "types")
  | _ => []

/-- The first type that is not `null`, or else the first one. -/
def leadingType (types : List String) : Option String :=
  (types.find? fun type ↦ type ≠ "null").or types.head?

def scalarTypeOf (tag : String) : Option ScalarType :=
  if tag = "bool" then some .bool
  else if tag = "number" then some .decimal
  else if tag = "string" then some .string
  else none

/-- An array has the type of its elements, or else strings; an object and `null` have none. -/
def leafScalarType (types elemTypes : List String) : Option ScalarType :=
  if "array" ∈ types then some (((leadingType elemTypes).bind scalarTypeOf).getD .string)
  else (leadingType types).bind scalarTypeOf

/-- The child field of the leaf at a path; the root is none. -/
def leafField (semantics : List (List String × FieldSemantics))
    (types elemTypes path : List String) : Option AnnotatedField :=
  if path = [] then none
  else (leafScalarType types elemTypes).bind fun ty ↦
    match JsonPath.parse ("$." ++ ".".intercalate path) with
    | .error _ => none
    | .ok jsonPath => some
      { path := jsonPath
        ty := ty
        unit := (findSemantics semantics path).bind (·.unit)
        isArray := "array" ∈ types
        canonicalFieldId := (findSemantics semantics path).bind (·.canonicalFieldId) }

def childEntries : Option Value → List (String × Value)
  | some (.object children) => children
  | _ => []

section Walk

variable (semantics : List (List String × FieldSemantics))

mutual

/-- The child fields below a path, each with the keys of the leaf it is derived from. -/
def walkCanonNode : Value → List String → List (List String × AnnotatedField)
  | .object entries, path =>
    if "object" ∈ typeNames (getEntry entries "types") ∧
        childEntries (getEntry entries "children") ≠ [] then
      walkCanonChildrenOf entries path
    else
      ((leafField semantics (typeNames (getEntry entries "types")) (elemTypeNames entries) path).map
        fun field ↦ (path, field)).toList
  | _, _ => []

/-- The walk of the member `children`. -/
def walkCanonChildrenOf :
    List (String × Value) → List String → List (List String × AnnotatedField)
  | [], _ => []
  | (name, value) :: entries, path =>
    if name = "children" then
      match value with
      | .object children => walkCanonChildren children path
      | _ => []
    else walkCanonChildrenOf entries path

/-- The keys of an object are sorted already. -/
def walkCanonChildren :
    List (String × Value) → List String → List (List String × AnnotatedField)
  | [], _ => []
  | (key, child) :: children, path =>
    walkCanonNode child (path ++ [key]) ++ walkCanonChildren children path

end

end Walk

/-- The child fields of a record with the keys they are derived from. -/
def derivedFields (fromStr : Bytes → Except String Value) (record : SchemaRecord)
    (semantic : Option SemanticMetadata) : List (List String × AnnotatedField) :=
  if record.canonicalizer ≠ generalizer then []
  else
    match fromStr (utf8 record.canonical) with
    | .error _ => []
    | .ok root => walkCanonNode ((semantic.map semanticByPath).getD []) root []

def childFieldsFromSchema (fromStr : Bytes → Except String Value) (record : SchemaRecord)
    (semantic : Option SemanticMetadata) : List AnnotatedField :=
  (derivedFields fromStr record semantic).map Prod.snd

/-! ## Reading a generalized field -/

/-- The names of the types that were seen. -/
def seenTypes (types : TypeCounts) : List String :=
  (types.named.filter fun named ↦ 0 < named.2).map Prod.fst

def fieldTypes (field : FieldNode) : List String := seenTypes field.types

def elemTypes (field : FieldNode) : List String := (field.arrayElem.map fieldTypes).getD []

theorem typeNames_strings (names : List String) :
    typeNames (some (.array (names.map .string))) = names := by
  rw [typeNames, List.filterMap_map]
  exact List.filterMap_some

theorem walkCanonChildren_eq (semantics : List (List String × FieldSemantics))
    (children : List (String × Value)) (path : List String) :
    walkCanonChildren semantics children path =
      children.flatMap fun child ↦ walkCanonNode semantics child.2 (path ++ [child.1]) := by
  induction children with
  | nil => rfl
  | cons child children ih => rw [walkCanonChildren, ih, List.flatMap_cons]

theorem getEntry_monoidEntries {α : Type} (optional types : α) (children elem : Option α) :
    getEntry (monoidEntries optional types children elem) "types" = some types ∧
      getEntry (monoidEntries optional types children elem) "children" = children ∧
      getEntry (monoidEntries optional types children elem) "elem" = elem := by
  cases children <;> cases elem <;> exact ⟨rfl, rfl, rfl⟩

theorem typeNames_viewText (field : FieldNode) (denom : ℕ) :
    ∃ entries, (viewText (field.view denom)).value = .object entries ∧
      typeNames (getEntry entries "types") = fieldTypes field := by
  rw [view_eq, value_viewText]
  refine ⟨_, rfl, ?_⟩
  rw [(getEntry_monoidEntries _ _ _ _).1, itemValues_eq, List.map_map]
  exact typeNames_strings (fieldTypes field)

theorem elemTypeNames_entries (field : FieldNode) (optional types : Value)
    (children : Option Value) (denom : ℕ) :
    elemTypeNames (monoidEntries optional types children
      (field.arrayElem.map fun elem ↦ (viewText (elem.view denom)).value)) = elemTypes field := by
  rw [elemTypeNames, (getEntry_monoidEntries _ _ _ _).2.2, elemTypes]
  cases field.arrayElem with
  | none => rfl
  | some elem =>
      rcases typeNames_viewText elem denom with ⟨entries, hvalue, hnames⟩
      simpa [hvalue] using hnames

theorem walkCanonChildrenOf_entries (semantics : List (List String × FieldSemantics))
    (optional types : Value) (children : List (String × Value)) (elem : Option Value)
    (path : List String) :
    walkCanonChildrenOf semantics (monoidEntries optional types (some (.object children)) elem)
      path = walkCanonChildren semantics children path := by
  rw [monoidEntries, Option.toList_some, List.map_singleton, List.singleton_append,
    walkCanonChildrenOf, if_pos rfl]

theorem object_mem_fieldTypes {field : FieldNode} (hobject : 0 < field.types.object) :
    "object" ∈ fieldTypes field := by
  refine List.mem_map.mpr ⟨("object", field.types.object), ?_, rfl⟩
  simp [TypeCounts.named, hobject]

theorem walkCanonNode_leaf (semantics : List (List String × FieldSemantics)) {field : FieldNode}
    (hsorted : SortedKeys field.children) (hempty : field.children = []) (denom : ℕ)
    (path : List String) :
    walkCanonNode semantics (viewText (field.view denom)).value path =
      ((leafField semantics (fieldTypes field) (elemTypes field) path).map fun found ↦
        (path, found)).toList := by
  have hvalue : (viewText (field.view denom)).value = .object
      (monoidEntries (.bool (field.present < denom)) (.array ((fieldTypes field).map .string)) none
        (field.arrayElem.map fun elem ↦ (viewText (elem.view field.types.array)).value)) := by
    rw [value_fieldText hsorted, hempty]
    rfl
  rw [hvalue, walkCanonNode, (getEntry_monoidEntries _ _ _ _).1,
    (getEntry_monoidEntries _ _ _ _).2.1, elemTypeNames_entries, typeNames_strings,
    if_neg fun hboth ↦ hboth.2 rfl]

/-- The walk over the generalized JSON of a field finds its leaves by their keys. -/
theorem walkCanonNode_eq (semantics : List (List String × FieldSemantics)) {field : FieldNode}
    (hobserved : FieldNode.Observed field) (denom : ℕ) (path : List String) :
    walkCanonNode semantics (viewText (field.view denom)).value path =
      (keyedLeaves field).filterMap fun leaf ↦
        (leafField semantics (fieldTypes leaf.2) (elemTypes leaf.2) (path ++ leaf.1)).map
          fun found ↦ (path ++ leaf.1, found) := by
  induction hobserved generalizing denom path with
  | @intro field keys typed object children ih =>
      by_cases hempty : field.children = []
      · rw [walkCanonNode_leaf semantics keys hempty, keyedLeaves_eq, hempty, List.isEmpty_nil,
          if_pos rfl]
        simp only [List.filterMap_cons, List.filterMap_nil, List.append_nil]
        cases leafField semantics (fieldTypes field) (elemTypes field) path <;> rfl
      · have hisEmpty : field.children.isEmpty = false := by simpa using hempty
        have hvalue : (viewText (field.view denom)).value = .object
            (monoidEntries (.bool (field.present < denom)) (.array ((fieldTypes field).map .string))
              (some (.object (field.children.map fun child ↦
                (child.1, (viewText (child.2.view field.types.object)).value))))
              (field.arrayElem.map fun elem ↦
                (viewText (elem.view field.types.array)).value)) := by
          rw [value_fieldText keys, hisEmpty]
          rfl
        rw [hvalue, walkCanonNode, (getEntry_monoidEntries _ _ _ _).1,
          (getEntry_monoidEntries _ _ _ _).2.1, typeNames_strings,
          if_pos ⟨object_mem_fieldTypes (object hempty), by simpa [childEntries] using hempty⟩,
          walkCanonChildrenOf_entries, walkCanonChildren_eq, List.flatMap_map, keyedLeaves_eq,
          hisEmpty, if_neg Bool.false_ne_true, List.filterMap_flatMap]
        refine List.flatMap_congr fun child hchild ↦ ?_
        rw [ih child hchild, List.filterMap_map]
        simp only [Function.comp_def, List.append_assoc, List.singleton_append]

end Deblob.Umbrella
