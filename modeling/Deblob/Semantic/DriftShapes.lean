import Deblob.Lib.Except
import Deblob.Monoid.Laws
import Deblob.Semantic.PathGrammars
import Deblob.Semantic.TypedPaths
import Mathlib.Data.Finset.Lattice.Lemmas

/-!
# What the typed walks record

The walk over a shape records, at every path below the root, the first shape it meets there. The
walk over a profile records the types of all nodes at the position.
-/

namespace Deblob.Semantic

open Core Lib Fingerprint Deblob.Monoid
open Umbrella (Value)

/-! ## Walks -/

/-- The walk adds what is found behind the current path, where nothing was recorded before. -/
def Records (walk : List PathSegment → TypedPaths → Except ShapeWalkError TypedPaths)
    (found : List PathSegment → Option PathShape) : Prop :=
  ∀ current out, ∃ types, walk current out = .ok types ∧
    (∀ below, types.lookup (current ++ below) = (out.lookup (current ++ below)).or (found below)) ∧
    ∀ path, ¬ current <+: path → types.lookup path = out.lookup path

/-- What is found below one segment. -/
def under (segment : PathSegment) (found : List PathSegment → Option PathShape) :
    List PathSegment → Option PathShape
  | [] => none
  | next :: path => if next = segment then found path else none

/-- What is found, apart from the place itself. -/
def strictly (found : List PathSegment → Option PathShape) (path : List PathSegment) :
    Option PathShape :=
  if path = [] then none else found path

namespace Records

variable {first second : List PathSegment → TypedPaths → Except ShapeWalkError TypedPaths}
  {found more : List PathSegment → Option PathShape}

theorem congr (hfirst : Records first found) (heq : ∀ path, found path = more path) :
    Records first more := by
  rwa [← funext heq]

theorem nothing : Records (fun _ out ↦ .ok out) fun _ ↦ none := by
  intro current out
  exact ⟨out, rfl, fun below ↦ (Option.or_none).symm, fun _ _ ↦ rfl⟩

theorem append (hfirst : Records first found) (hsecond : Records second more) :
    Records (fun current out ↦ first current out >>= second current)
      (fun path ↦ (found path).or (more path)) := by
  intro current out
  rcases hfirst current out with ⟨between, hbetween, hbelowBetween, hotherBetween⟩
  rcases hsecond current between with ⟨types, htypes, hbelow, hother⟩
  refine ⟨types, Lib.Except.bind_eq_ok.mpr ⟨between, hbetween, htypes⟩, fun below ↦ ?_,
    fun path hpath ↦ ?_⟩
  · rw [hbelow, hbelowBetween, Option.or_assoc]
  · rw [hother path hpath, hotherBetween path hpath]

/-- The shape of the place itself is recorded first. -/
theorem here {shape : PathShape} (hfirst : Records first (strictly found))
    (hshape : found [] = some shape) :
    Records (fun current out ↦ first current (orInsert current shape out)) found := by
  intro current out
  rcases hfirst current (orInsert current shape out) with ⟨types, htypes, hbelow, hother⟩
  refine ⟨types, htypes, fun below ↦ ?_, fun path hpath ↦ ?_⟩
  · rw [hbelow, lookup_orInsert]
    unfold strictly
    by_cases hnil : below = []
    · simp [hnil, hshape]
    · simp [hnil]
  · have hne : path ≠ current := fun heq ↦ hpath (heq ▸ List.prefix_rfl)
    rw [hother path hpath, lookup_orInsert, if_neg hne]

/-- A walk below a segment. -/
theorem below (hfirst : Records first found) (segment : PathSegment) :
    Records (fun current out ↦ first (current ++ [segment]) out) (under segment found) := by
  intro current out
  rcases hfirst (current ++ [segment]) out with ⟨types, htypes, hbelow, hother⟩
  refine ⟨types, htypes, fun path ↦ ?_, fun path hpath ↦ ?_⟩
  · match path with
    | [] =>
        rw [hother]
        · exact (Option.or_none).symm
        · intro hprefix
          have hlength := hprefix.length_le
          simp at hlength
    | next :: path =>
        by_cases hnext : next = segment
        · subst hnext
          have hpath := hbelow path
          rw [List.append_assoc] at hpath
          rw [under, if_pos rfl]
          exact hpath
        · rw [under, if_neg hnext, Option.or_none, hother]
          intro hprefix
          rw [List.prefix_append_right_inj, List.cons_prefix_cons] at hprefix
          exact hnext hprefix.1.symm
  · exact hother path fun hprefix ↦ hpath ((List.prefix_append current [segment]).trans hprefix)

end Records

/-! ## Shapes -/

def rankType (rank : ℕ) : ShapeType :=
  match rank with
  | 0 => .null
  | 1 => .bool
  | 2 => .num
  | 3 => .str
  | 4 => .arr
  | _ => .obj

/-- A container is never a leaf, whether or not it is empty. -/
def rankShape (rank : ℕ) : PathShape := ⟨rank < 4, {rankType rank}⟩

/-- The first shape met at a path. -/
def shapeAt : List PathSegment → Shape → Option PathShape
  | [], shape => some (rankShape shape.rank)
  | .key key :: path, shape => (shape.valueAt key).bind (shapeAt path)
  | .wildcard :: path, shape => shape.elements.findSome? (shapeAt path)

theorem childShape_shapeText (shape : Shape) :
    (nodeType (shapeText shape).value >>= childShapeOf) = .ok (rankShape shape.rank) := by
  cases shape with
  | array elements emptiness =>
      rw [value_arrayText]
      rfl
  | object fields =>
      rw [value_objectText]
      rfl
  | _ => rfl

theorem findSome?_cons_eq_or {α β : Type} (found : α → Option β) (first : α) (rest : List α) :
    (first :: rest).findSome? found = (found first).or (rest.findSome? found) := by
  rw [List.findSome?_cons]
  cases found first <;> rfl

section

variable {α : Type} {fields : List (String × α)}

/-- Among sorted members the one under the key of a path is the one that is found. -/
theorem findSome?_under_key (hsorted : SortedKeys fields)
    (found : List PathSegment → α → Option PathShape) (key : String) (path : List PathSegment) :
    fields.findSome? (fun field ↦ under (.key field.1) (found · field.2) (.key key :: path)) =
      (fields.lookup key).bind (found path) := by
  induction fields with
  | nil => rfl
  | cons field fields ih =>
      rcases List.pairwise_cons.mp hsorted with ⟨hhead, htail⟩
      rw [findSome?_cons_eq_or, ih htail, lookup_cons_eq, under]
      by_cases hkey : key = field.1
      · subst hkey
        rw [if_pos rfl, if_pos rfl, lookup_eq_none_of_lt hhead, Option.bind_none, Option.or_none,
          Option.bind_some]
      · have hne : PathSegment.key key ≠ .key field.1 := fun heq ↦ hkey (PathSegment.key.inj heq)
        rw [if_neg hne, if_neg hkey, Option.none_or]

/-- Members have no path that starts otherwise. -/
theorem findSome?_under_ne (found : List PathSegment → α → Option PathShape)
    {path : List PathSegment} (hpath : ∀ key rest, path ≠ .key key :: rest) :
    fields.findSome? (fun field ↦ under (.key field.1) (found · field.2) path) = none := by
  rw [List.findSome?_eq_none_iff]
  intro field _
  match path with
  | [] => rfl
  | next :: path =>
      rw [under, if_neg]
      exact fun hnext ↦ hpath field.1 path (hnext ▸ rfl)

end

section

variable {value : Value} {shape : PathShape}
  (hshape : (nodeType value >>= childShapeOf) = .ok shape)
include hshape

theorem walkTypedFields_cons (key : String) (fields : List (String × Value)) :
    walkTypedFields ((key, value) :: fields) = fun current out ↦
      walkTyped value (current ++ [.key key]) (orInsert (current ++ [.key key]) shape out) >>=
        walkTypedFields fields current := by
  funext current out
  rcases Lib.Except.bind_eq_ok.mp hshape with ⟨tag, htag, htagShape⟩
  rw [walkTypedFields, htag]
  change (childShapeOf tag >>= _) = _
  rw [htagShape]
  rfl

theorem walkTypedElements_cons (elements : List Value) :
    walkTypedElements (value :: elements) = fun current out ↦
      walkTyped value current (orInsert current shape out) >>=
        walkTypedElements elements current := by
  funext current out
  rcases Lib.Except.bind_eq_ok.mp hshape with ⟨tag, htag, htagShape⟩
  rw [walkTypedElements, htag]
  change (childShapeOf tag >>= _) = _
  rw [htagShape]
  rfl

end

theorem walkTypedFields_records {fields : List (String × Shape)}
    (hfields : ∀ field ∈ fields,
      Records (walkTyped (shapeText field.2).value) (strictly (shapeAt · field.2))) :
    Records (walkTypedFields (fields.map fun field ↦ (field.1, (shapeText field.2).value)))
      fun path ↦ fields.findSome? fun field ↦ under (.key field.1) (shapeAt · field.2) path := by
  induction fields with
  | nil => exact .nothing
  | cons field fields ih =>
      rw [List.forall_mem_cons] at hfields
      rw [List.map_cons, walkTypedFields_cons (childShape_shapeText field.2)]
      have hfirst := (hfields.1.here rfl).below (.key field.1)
      apply (hfirst.append (ih hfields.2)).congr
      intro path
      rw [findSome?_cons_eq_or]

theorem walkTypedElements_records {elements : List Shape}
    (helements : ∀ element ∈ elements,
      Records (walkTyped (shapeText element).value) (strictly (shapeAt · element))) :
    Records (walkTypedElements (elements.map fun element ↦ (shapeText element).value))
      fun path ↦ elements.findSome? (shapeAt path) := by
  induction elements with
  | nil => exact .nothing
  | cons element elements ih =>
      rw [List.forall_mem_cons] at helements
      rw [List.map_cons, walkTypedElements_cons (childShape_shapeText element)]
      apply ((helements.1.here rfl).append (ih helements.2)).congr
      intro path
      rw [findSome?_cons_eq_or]

/-- Below a scalar there is nothing. -/
theorem strictly_shapeAt_scalar {shape : Shape} (hvalues : ∀ key, shape.valueAt key = none)
    (helements : shape.elements = []) (path : List PathSegment) :
    strictly (shapeAt · shape) path = none := by
  match path with
  | [] => rfl
  | .key key :: path => simp [strictly, shapeAt, hvalues]
  | .wildcard :: path => simp [strictly, shapeAt, helements]

/-- The walk over the canonical bytes of a shape records the first shape at every path. -/
theorem walkTyped_records {shape : Shape} (hsorted : SortedShape shape) :
    Records (walkTyped (shapeText shape).value) (strictly (shapeAt · shape)) := by
  induction hsorted with
  | null | bool | number | string =>
      exact Records.nothing.congr fun path ↦
        (strictly_shapeAt_scalar (fun _ ↦ rfl) rfl path).symm
  | @array elements emptiness _ ih =>
      rw [value_arrayText, elementTexts_eq, itemValues_eq, List.map_map]
      have hwalk := (walkTypedElements_records ih).below .wildcard
      apply hwalk.congr
      intro path
      match path with
      | [] => rfl
      | .key _ :: _ => rfl
      | .wildcard :: _ => rfl
  | @object fields keys _ ih =>
      have hmap : collectMap (memberValues (fieldTexts fields)) =
          fields.map fun field ↦ (field.1, (shapeText field.2).value) := by
        rw [memberValues_eq, fieldTexts_eq, List.map_map]
        exact (keys.mapValues fun shape ↦ (shapeText shape).value).collectMap_eq
      rw [value_objectText, hmap]
      apply (walkTypedFields_records ih).congr
      intro path
      match path with
      | [] => exact findSome?_under_ne (fun path shape ↦ shapeAt path shape) nofun
      | .wildcard :: _ => exact findSome?_under_ne (fun path shape ↦ shapeAt path shape) nofun
      | .key key :: path =>
          exact findSome?_under_key keys (fun path shape ↦ shapeAt path shape) key path

/-! ## Profiles -/

/-- The counters of a field with their names in both grammars. -/
def typedCounts (types : TypeCounts) : List (String × ShapeType × ℕ) :=
  [("array", .arr, types.array), ("bool", .bool, types.bool), ("null", .null, types.null),
    ("number", .num, types.number), ("object", .obj, types.object), ("string", .str, types.string)]

def fieldTypes (types : TypeCounts) : Finset ShapeType :=
  (((typedCounts types).filter fun name ↦ 0 < name.2.2).map fun name ↦ name.2.1).toFinset

/-- A field is a leaf if nothing was ever found below it. -/
def fieldShape (field : FieldNode) : PathShape :=
  ⟨field.children.isEmpty && field.arrayElem.isNone, fieldTypes field.types⟩

def fieldShapeAt : List PathSegment → FieldNode → Option PathShape
  | [], field => some (fieldShape field)
  | .key key :: path, field => (field.children.lookup key).bind (fieldShapeAt path)
  | .wildcard :: path, field => field.arrayElem.bind (fieldShapeAt path)

theorem monoidTypes_map {named : List (String × ShapeType × ℕ)}
    (hnamed : ∀ name ∈ named, monoidTagToShapeType name.1 = .ok name.2.1)
    (types : Finset ShapeType) :
    monoidTypes types (named.map fun name ↦ .string name.1) =
      .ok (types ∪ (named.map fun name ↦ name.2.1).toFinset) := by
  induction named generalizing types with
  | nil => simp [monoidTypes]
  | cons name named ih =>
      rw [List.forall_mem_cons] at hnamed
      rw [List.map_cons, monoidTypes, hnamed.1]
      change monoidTypes (insert name.2.1 types) _ = _
      rw [ih hnamed.2, List.map_cons, List.toFinset_cons, Finset.insert_union_comm]

theorem monoidTypes_named (types : TypeCounts) :
    monoidTypes ∅ (((types.named.filter fun named ↦ 0 < named.2).map Prod.fst).map .string) =
      .ok (fieldTypes types) := by
  have hnamed : types.named = (typedCounts types).map fun name ↦ (name.1, name.2.2) := rfl
  have htags : ∀ name ∈ typedCounts types, monoidTagToShapeType name.1 = .ok name.2.1 := by
    unfold typedCounts
    simp [monoidTagToShapeType]
  rw [hnamed, List.filter_map, List.map_map, List.map_map]
  exact (monoidTypes_map (fun name hname ↦ htags name (List.mem_of_mem_filter hname)) ∅).trans
    (congrArg Except.ok (Finset.empty_union _))

/-- The shape that is read from the generalized JSON of a field. -/
theorem monoidPathShape_field {field : FieldNode} (hkeys : SortedKeys field.children)
    (denom : ℕ) : monoidPathShape (viewText (field.view denom)).value = .ok (fieldShape field) := by
  have hentries (optional types : Value) (children elem : Option Value) :
      getEntry (monoidEntries optional types children elem) "types" = some types ∧
        getEntry (monoidEntries optional types children elem) "children" = children ∧
        getEntry (monoidEntries optional types children elem) "elem" = elem := by
    cases children <;> cases elem <;> exact ⟨rfl, rfl, rfl⟩
  rw [value_fieldText hkeys, monoidPathShape, (hentries _ _ _ _).1]
  dsimp only
  rw [monoidTypes_named, (hentries _ _ _ _).2.1, (hentries _ _ _ _).2.2]
  rcases field with ⟨_, _, _, children, elem, _, _, _, _, _⟩
  cases children <;> cases elem <;> rfl

theorem walkTypedChildren_cons {value : Value} {shape : PathShape}
    (hshape : monoidPathShape value = .ok shape) (key : String)
    (children : List (String × Value)) :
    walkTypedChildren ((key, value) :: children) = fun current out ↦
      walkTypedMonoid value (current ++ [.key key]) (orInsert (current ++ [.key key]) shape out) >>=
        walkTypedChildren children current := by
  funext current out
  rw [walkTypedChildren, hshape]
  rfl

/-- The walk of the element, if there is one. -/
def walkTypedElem (elem : Option Value) (current : List PathSegment) (out : TypedPaths) :
    Except ShapeWalkError TypedPaths :=
  elem.elim (.ok out) fun elem ↦ do
    let shape ← monoidPathShape elem
    walkTypedMonoid elem (current ++ [.wildcard]) (orInsert (current ++ [.wildcard]) shape out)

theorem walkTypedMonoid_entries (optional types : Value)
    (children : Option (List (String × Value))) (elem : Option Value) :
    walkTypedMonoid (.object (monoidEntries optional types (children.map .object) elem)) =
      fun current out ↦
        walkTypedChildren (children.getD []) current out >>= walkTypedElem elem current := by
  cases children <;> cases elem <;> rfl

theorem walkTypedChildren_records {denom : ℕ} {children : List (String × FieldNode)}
    (hsorted : ∀ child ∈ children, child.2.Sorted)
    (hchildren : ∀ child ∈ children,
      Records (walkTypedMonoid (viewText (child.2.view denom)).value)
        (strictly (fieldShapeAt · child.2))) :
    Records (walkTypedChildren
        (children.map fun child ↦ (child.1, (viewText (child.2.view denom)).value)))
      fun path ↦ children.findSome? fun child ↦
        under (.key child.1) (fieldShapeAt · child.2) path := by
  induction children with
  | nil => exact .nothing
  | cons child children ih =>
      rw [List.forall_mem_cons] at hchildren hsorted
      have hshape := monoidPathShape_field hsorted.1.keys denom
      rw [List.map_cons, walkTypedChildren_cons hshape]
      have hfirst := (hchildren.1.here rfl).below (.key child.1)
      apply (hfirst.append (ih hsorted.2 hchildren.2)).congr
      intro path
      rw [findSome?_cons_eq_or]

/-- The walk over the generalized JSON of a field records the shape of every field below it. -/
theorem walkTypedMonoid_records {field : FieldNode} (hsorted : field.Sorted) (denom : ℕ) :
    Records (walkTypedMonoid (viewText (field.view denom)).value)
      (strictly (fieldShapeAt · field)) := by
  induction hsorted generalizing denom with
  | @intro field keys children elem ihChildren ihElem =>
      have hchildren := @walkTypedChildren_records field.types.object field.children
        (fun child hchild ↦ children child.1 child.2 (keys.mem_iff.mp hchild))
        fun child hchild ↦ ihChildren child.1 child.2 (keys.mem_iff.mp hchild) _
      have helem : Records
          (walkTypedElem (field.arrayElem.map fun elem ↦
            (viewText (elem.view field.types.array)).value))
          (under .wildcard fun path ↦ field.arrayElem.bind (fieldShapeAt path)) := by
        cases hsome : field.arrayElem with
        | none =>
            apply Records.nothing.congr
            intro path
            cases path with
            | nil => rfl
            | cons segment path => simp [under]
        | some inner =>
            have hshape := monoidPathShape_field (elem inner hsome).keys field.types.array
            have hwalk := ((ihElem inner hsome field.types.array).here rfl).below .wildcard
            intro current out
            rw [Option.map_some, walkTypedElem, Option.elim_some, hshape]
            exact hwalk current out
      rw [value_fieldText keys, walkTypedMonoid_entries]
      have hgetD : (if field.children.isEmpty then none else
          some (field.children.map fun child ↦
            (child.1, (viewText (child.2.view field.types.object)).value))).getD [] =
              field.children.map fun child ↦
                (child.1, (viewText (child.2.view field.types.object)).value) := by
        cases field.children <;> rfl
      rw [hgetD]
      apply (hchildren.append helem).congr
      intro path
      match path with
      | [] =>
          rw [@findSome?_under_ne _ _ (fun path field ↦ fieldShapeAt path field) [] nofun]
          rfl
      | .wildcard :: path =>
          rw [@findSome?_under_ne _ _ (fun path field ↦ fieldShapeAt path field)
            (.wildcard :: path) nofun]
          rfl
      | .key key :: path =>
          rw [findSome?_under_key keys (fun path field ↦ fieldShapeAt path field)]
          exact Option.or_none

end Deblob.Semantic
