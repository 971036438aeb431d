import Deblob.Lib.Except
import Deblob.Monoid.Laws
import Deblob.Semantic.CanonicalTexts
import Deblob.Semantic.Path

/-!
# The two grammars of field paths

The canonical bytes of a shape and the generalized JSON of a profile are JSON texts, and each walk
finds the paths of its tree. The paths of a shape are the true field paths. The profile of a
document has the same ones as long as every position that holds an array holds an element.
-/

namespace Deblob.Semantic

open Core Lib Fingerprint Deblob.Monoid
open Umbrella (Value)

/-! ## Walks -/

/-- The walk adds the paths of `found` behind the current path. -/
def Adds (walk : List PathSegment → Paths → Except PathError Paths)
    (found : List PathSegment → Prop) : Prop :=
  ∀ current out, ∃ paths, walk current out = .ok paths ∧
    ∀ path, path ∈ paths ↔ path ∈ out ∨ ∃ below, found below ∧ path = current ++ below

/-- The segment alone, and the paths of `found` behind it. -/
def Behind (segment : PathSegment) (found : List PathSegment → Prop) (path : List PathSegment) :
    Prop :=
  ∃ rest, path = segment :: rest ∧ (rest = [] ∨ found rest)

namespace Adds

variable {first second : List PathSegment → Paths → Except PathError Paths}
  {found more : List PathSegment → Prop}

theorem congr (hfirst : Adds first found) (hiff : ∀ path, found path ↔ more path) :
    Adds first more := by
  have heq : found = more := funext fun path ↦ propext (hiff path)
  rwa [← heq]

theorem nothing (hnone : ∀ path, ¬ found path) : Adds (fun _ out ↦ .ok out) found := by
  intro current out
  refine ⟨out, rfl, fun path ↦ ?_⟩
  simp [hnone]

theorem append (hfirst : Adds first found) (hsecond : Adds second more) :
    Adds (fun current out ↦ first current out >>= second current)
      (fun path ↦ found path ∨ more path) := by
  intro current out
  rcases hfirst current out with ⟨between, hbetween, hmemBetween⟩
  rcases hsecond current between with ⟨paths, hpaths, hmem⟩
  refine ⟨paths, ?_, fun path ↦ ?_⟩
  · exact Lib.Except.bind_eq_ok.mpr ⟨between, hbetween, hpaths⟩
  · rw [hmem, hmemBetween, or_assoc]
    simp only [or_and_right, exists_or]

/-- A walk below a segment, whose own path is added first. -/
theorem behind (hfirst : Adds first found) (segment : PathSegment) :
    Adds (fun current out ↦ first (current ++ [segment]) (insert (current ++ [segment]) out))
      (Behind segment found) := by
  intro current out
  rcases hfirst (current ++ [segment]) (insert (current ++ [segment]) out) with
    ⟨paths, hpaths, hmem⟩
  refine ⟨paths, hpaths, fun path ↦ ?_⟩
  rw [hmem, Finset.mem_insert]
  constructor
  · rintro ((rfl | hout) | ⟨below, hbelow, rfl⟩)
    · exact .inr ⟨[segment], ⟨[], rfl, .inl rfl⟩, rfl⟩
    · exact .inl hout
    · exact .inr ⟨segment :: below, ⟨below, rfl, .inr hbelow⟩, List.append_assoc _ _ _⟩
  · rintro (hout | ⟨_, ⟨rest, rfl, hrest⟩, rfl⟩)
    · exact .inl (.inr hout)
    · rcases hrest with rfl | hrest
      · exact .inl (.inl rfl)
      · exact .inr ⟨rest, hrest, by simp⟩

end Adds

section

variable {α : Type} {value : α → Value} {found : α → List PathSegment → Prop}

theorem walkFields_adds {fields : List (String × α)}
    (hfields : ∀ field ∈ fields, Adds (walkShape (value field.2)) (found field.2)) :
    Adds (walkFields (fields.map fun field ↦ (field.1, value field.2))) fun path ↦
      ∃ field ∈ fields, Behind (.key field.1) (found field.2) path := by
  induction fields with
  | nil => exact .nothing (by simp)
  | cons field fields ih =>
      rw [List.forall_mem_cons] at hfields
      exact ((hfields.1.behind (.key field.1)).append (ih hfields.2)).congr (by simp)

theorem walkElements_adds {elements : List α}
    (helements : ∀ element ∈ elements, Adds (walkShape (value element)) (found element)) :
    Adds (walkElements (elements.map value)) fun path ↦
      ∃ element ∈ elements, found element path := by
  induction elements with
  | nil => exact .nothing (by simp)
  | cons element elements ih =>
      rw [List.forall_mem_cons] at helements
      exact (helements.1.append (ih helements.2)).congr (by simp)

theorem walkChildren_adds {children : List (String × α)}
    (hchildren : ∀ child ∈ children, Adds (walkMonoidField (value child.2)) (found child.2)) :
    Adds (walkChildren (children.map fun child ↦ (child.1, value child.2))) fun path ↦
      ∃ child ∈ children, Behind (.key child.1) (found child.2) path := by
  induction children with
  | nil => exact .nothing (by simp)
  | cons child children ih =>
      rw [List.forall_mem_cons] at hchildren
      exact ((hchildren.1.behind (.key child.1)).append (ih hchildren.2)).congr (by simp)

end

/-! ## Paths of shapes -/

/-- The true field paths: keys of objects and one wildcard for an array, however deep. -/
def IsFieldPath : List PathSegment → Shape → Prop
  | [], _ => False
  | .key key :: path, shape =>
    ∃ value, shape.valueAt key = some value ∧ (path = [] ∨ IsFieldPath path value)
  | .wildcard :: path, shape =>
    shape.rank = 4 ∧ (path = [] ∨ ∃ element ∈ shape.elements, IsFieldPath path element)

/-- The field maps of the shape are sorted at every depth. -/
inductive SortedShape : Shape → Prop
  | null : SortedShape .null
  | bool : SortedShape .bool
  | number : SortedShape .number
  | string : SortedShape .string
  | array {elements : List Shape} {emptiness : Emptiness}
      (sorted : ∀ element ∈ elements, SortedShape element) :
      SortedShape (.array elements emptiness)
  | object {fields : List (String × Shape)} (keys : SortedKeys fields)
      (sorted : ∀ field ∈ fields, SortedShape field.2) : SortedShape (.object fields)

theorem walkShape_scalar {tag : String} (htag : tag ∈ ["null", "bool", "num", "str"])
    (current : List PathSegment) (out : Paths) :
    walkShape (.object [("t", .string tag)]) current out = .ok out := by
  unfold walkShape
  exact if_pos htag

theorem walkShape_scalar_adds {shape : Shape} {tag : String}
    (htag : tag ∈ ["null", "bool", "num", "str"])
    (hvalue : (shapeText shape).value = .object [("t", .string tag)])
    (hnone : ∀ path, ¬ IsFieldPath path shape) :
    Adds (walkShape (shapeText shape).value) fun path ↦ IsFieldPath path shape := by
  have hwalk : walkShape (shapeText shape).value = fun _ out ↦ .ok out := by
    funext current out
    rw [hvalue, walkShape_scalar htag]
  rw [hwalk]
  exact .nothing hnone

theorem not_isFieldPath_scalar {shape : Shape} (hrank : shape.rank < 4)
    (hvalues : ∀ key, shape.valueAt key = none) (path : List PathSegment) :
    ¬ IsFieldPath path shape := by
  cases path with
  | nil => exact id
  | cons segment path =>
      cases segment with
      | key key => simp [IsFieldPath, hvalues]
      | wildcard => exact fun hpath ↦ hrank.ne hpath.1

/-- The walk over the canonical bytes of a shape finds its true field paths. -/
theorem walkShape_adds {shape : Shape} (hsorted : SortedShape shape) :
    Adds (walkShape (shapeText shape).value) fun path ↦ IsFieldPath path shape := by
  induction hsorted with
  | null | bool | number | string =>
      exact walkShape_scalar_adds (by decide) rfl
        (not_isFieldPath_scalar (by decide) fun _ ↦ rfl)
  | @array elements emptiness _ ih =>
      have hwalk := (@walkElements_adds _ (fun shape ↦ (shapeText shape).value)
        (fun shape path ↦ IsFieldPath path shape) elements ih).behind .wildcard
      rw [value_arrayText, elementTexts_eq, itemValues_eq, List.map_map]
      refine hwalk.congr fun path ↦ ?_
      cases path with
      | nil => simp [Behind, IsFieldPath]
      | cons segment path =>
          cases segment with
          | key key => simp [Behind, IsFieldPath, Shape.valueAt]
          | wildcard => simp [Behind, IsFieldPath, Shape.rank, Shape.elements]
  | @object fields keys _ ih =>
      have hmap : collectMap (memberValues (fieldTexts fields)) =
          fields.map fun field ↦ (field.1, (shapeText field.2).value) := by
        rw [memberValues_eq, fieldTexts_eq, List.map_map]
        exact (keys.mapValues fun shape ↦ (shapeText shape).value).collectMap_eq
      have hwalk := @walkFields_adds _ (fun shape ↦ (shapeText shape).value)
        (fun shape path ↦ IsFieldPath path shape) fields ih
      rw [value_objectText, hmap]
      refine hwalk.congr fun path ↦ ?_
      cases path with
      | nil => simp [Behind, IsFieldPath]
      | cons segment path =>
          cases segment with
          | wildcard => simp [Behind, IsFieldPath, Shape.rank]
          | key key =>
              have hvalue (value : Shape) : (Shape.object fields).valueAt key = some value ↔
                  (key, value) ∈ fields := keys.mem_iff.symm
              simp [Behind, IsFieldPath, hvalue, and_assoc]

mutual

theorem sortedShape_shapeOf : (node : Node) → SortedShape (shapeOf node)
  | .null => .null
  | .bool _ => .bool
  | .number _ => .number
  | .string _ => .string
  | .array items truncated => by
    apply SortedShape.array
    intro element helement
    rw [mem_collectSet Shape.eq_of_cmp, shapesOf_eq] at helement
    rcases List.mem_map.mp helement with ⟨item, hitem, rfl⟩
    exact sortedShape_items items item hitem
  | .object fields => by
    apply SortedShape.object (sortedKeys_collectMap _)
    intro field hfield
    have hmem := mem_of_mem_collectMap hfield
    rw [fieldShapesOf_eq] at hmem
    rcases List.mem_map.mp hmem with ⟨member, hmember, rfl⟩
    exact sortedShape_fields fields member hmember

theorem sortedShape_items : (items : List Node) → ∀ item ∈ items, SortedShape (shapeOf item)
  | [] => by simp
  | item :: items => List.forall_mem_cons.mpr ⟨sortedShape_shapeOf item, sortedShape_items items⟩

theorem sortedShape_fields : (fields : List (String × Node)) →
    ∀ field ∈ fields, SortedShape (shapeOf field.2)
  | [] => by simp
  | (_, value) :: fields =>
    List.forall_mem_cons.mpr ⟨sortedShape_shapeOf value, sortedShape_fields fields⟩

end

/-! ## Paths of profiles -/

/-- The paths of a field: the keys of children, and a wildcard where there is an element. -/
def IsMonoidPath : List PathSegment → FieldNode → Prop
  | [], _ => False
  | .key key :: path, field =>
    ∃ child, field.children.lookup key = some child ∧ (path = [] ∨ IsMonoidPath path child)
  | .wildcard :: path, field =>
    ∃ elem, field.arrayElem = some elem ∧ (path = [] ∨ IsMonoidPath path elem)

/-- The walk of the element, if there is one. -/
def walkElem (elem : Option Value) (current : List PathSegment) (out : Paths) :
    Except PathError Paths :=
  elem.elim (.ok out) fun elem ↦
    walkMonoidField elem (current ++ [.wildcard]) (insert (current ++ [.wildcard]) out)

theorem walkMonoidField_entries (optional types : Value) (children : Option (List (String × Value)))
    (elem : Option Value) (current : List PathSegment) (out : Paths) :
    walkMonoidField (.object (monoidEntries optional types (children.map .object) elem)) current
      out = walkChildren (children.getD []) current out >>= walkElem elem current := by
  cases children <;> cases elem <;> rfl

/-- The walk over the generalized JSON of a field finds its paths. -/
theorem walkMonoidField_adds {field : FieldNode} (hsorted : field.Sorted) (denom : ℕ) :
    Adds (walkMonoidField (viewText (field.view denom)).value) fun path ↦
      IsMonoidPath path field := by
  induction hsorted generalizing denom with
  | @intro field keys _ _ ihChildren ihElem =>
      have hchildren := @walkChildren_adds _
        (fun child ↦ (viewText (child.view field.types.object)).value)
        (fun child path ↦ IsMonoidPath path child) field.children fun child hchild ↦
          ihChildren child.1 child.2 (keys.mem_iff.mp hchild) _
      have helem : Adds
          (walkElem (field.arrayElem.map fun elem ↦ (viewText (elem.view field.types.array)).value))
          fun path ↦ ∃ elem, field.arrayElem = some elem ∧
            Behind .wildcard (fun path ↦ IsMonoidPath path elem) path := by
        cases hsome : field.arrayElem with
        | none => exact .nothing (by simp)
        | some elem => exact ((ihElem elem hsome _).behind .wildcard).congr (by simp)
      have hwalk : walkMonoidField (viewText (field.view denom)).value = fun current out ↦
          walkChildren (field.children.map fun child ↦
            (child.1, (viewText (child.2.view field.types.object)).value)) current out >>=
          walkElem (field.arrayElem.map fun elem ↦
            (viewText (elem.view field.types.array)).value) current := by
        funext current out
        rw [value_fieldText keys, walkMonoidField_entries]
        cases field.children <;> rfl
      rw [hwalk]
      refine (hchildren.append helem).congr fun path ↦ ?_
      cases path with
      | nil => simp [Behind, IsMonoidPath]
      | cons segment path =>
          cases segment with
          | wildcard => simp [Behind, IsMonoidPath]
          | key key =>
              have hchild (child : FieldNode) : field.children.lookup key = some child ↔
                  (key, child) ∈ field.children := keys.mem_iff.symm
              simp [Behind, IsMonoidPath, hchild, and_assoc]

/-! ## Positions -/

/-- A segment as a step of a position. -/
def pathStep : PathSegment → Step
  | .key name => .key name
  | .wildcard => .elem

/-- The nodes of a document at a path. -/
def nodesBehind (path : List PathSegment) (nodes : List Node) : List Node :=
  nodesAt (path.map pathStep) nodes

/-- Some node has the key, or some node is an array. -/
def Offers : PathSegment → List Node → Prop
  | .key key, nodes => valuesAt key nodes ≠ []
  | .wildcard, nodes => 0 < countRank 4 nodes

theorem nodesAt_nil (path : List Step) : nodesAt path [] = [] := by
  induction path with
  | nil => rfl
  | cons step path ih => cases step <;> exact ih

theorem nodesBehind_append_singleton (path : List PathSegment) (segment : PathSegment)
    (nodes : List Node) :
    nodesBehind (path ++ [segment]) nodes = nodesBehind [segment] (nodesBehind path nodes) := by
  induction path generalizing nodes with
  | nil => rfl
  | cons first path ih => cases first <;> exact ih _

theorem rank_of_mem_elements {shape element : Shape} (helement : element ∈ shape.elements) :
    shape.rank = 4 := by
  cases shape with
  | array elements emptiness => rfl
  | _ => cases helement

/-- A field path leads to a position that offers its last segment. -/
theorem isFieldPath_iff_offers (path : List PathSegment) (segment : PathSegment)
    (nodes : List Node) :
    (∃ shape ∈ nodes.map shapeOf, IsFieldPath (path ++ [segment]) shape) ↔
      Offers segment (nodesBehind path nodes) := by
  induction path generalizing nodes with
  | nil =>
      cases segment with
      | key key =>
          have hvalues : valuesAt key nodes ≠ [] ↔
              ∃ shape, shape ∈ (valuesAt key nodes).map shapeOf := by
            simp [List.eq_nil_iff_forall_not_mem]
          change _ ↔ valuesAt key nodes ≠ []
          rw [hvalues]
          simp only [mem_map_valuesAt, List.nil_append, IsFieldPath, true_or, and_true]
          constructor
          · rintro ⟨outer, houter, inner, hinner⟩
            exact ⟨inner, outer, houter, hinner⟩
          · rintro ⟨inner, outer, houter, hinner⟩
            exact ⟨outer, houter, inner, hinner⟩
      | wildcard =>
          change _ ↔ 0 < countRank 4 nodes
          rw [countRank_pos]
          simp only [List.nil_append, IsFieldPath, true_or, and_true]
  | cons first path ih =>
      have hbehind : path ++ [segment] ≠ [] := by simp
      cases first with
      | key key =>
          change _ ↔ Offers segment (nodesBehind path (valuesAt key nodes))
          rw [← ih]
          simp only [mem_map_valuesAt, List.cons_append, IsFieldPath, hbehind, false_or]
          constructor
          · rintro ⟨outer, houter, inner, hinner, hpath⟩
            exact ⟨inner, ⟨outer, houter, hinner⟩, hpath⟩
          · rintro ⟨inner, ⟨outer, houter, hinner⟩, hpath⟩
            exact ⟨outer, houter, inner, hinner, hpath⟩
      | wildcard =>
          change _ ↔ Offers segment (nodesBehind path (itemsOf nodes))
          rw [← ih]
          simp only [mem_map_itemsOf, List.cons_append, IsFieldPath, hbehind, false_or]
          constructor
          · rintro ⟨outer, houter, -, inner, hinner, hpath⟩
            exact ⟨inner, ⟨outer, houter, hinner⟩, hpath⟩
          · rintro ⟨inner, ⟨outer, houter, hinner⟩, hpath⟩
            exact ⟨outer, houter, rank_of_mem_elements hinner, inner, hinner, hpath⟩

/-- A path of a profile leads to nodes. -/
theorem isMonoidPath_iff {field : FieldNode} {nodes : List Node}
    (hsummary : Summarizes field nodes) (path : List PathSegment) :
    IsMonoidPath path field ↔ path ≠ [] ∧ nodesBehind path nodes ≠ [] := by
  induction path generalizing field nodes with
  | nil => simp [IsMonoidPath]
  | cons segment path ih =>
      -- a part of the field is there exactly if it stands for nodes
      have hpart {part : Option FieldNode} {below : List Node}
          (hbelow : SummarizesPart part below) :
          (∃ child, part = some child ∧ (path = [] ∨ IsMonoidPath path child)) ↔
            nodesBehind path below ≠ [] := by
        cases hbelow with
        | none => simp [nodesBehind, nodesAt_nil]
        | @some child _ hnonempty hchild =>
            simp only [Option.some.injEq, exists_eq_left', ih hchild]
            cases path with
            | nil => simpa [nodesBehind, nodesAt] using hnonempty
            | cons next path => simp
      cases hsummary with
      | intro _ _ _ children elem =>
          cases segment with
          | key key =>
              change _ ↔ _ ∧ nodesBehind path (valuesAt key nodes) ≠ []
              simpa [IsMonoidPath] using hpart (children key)
          | wildcard =>
              change _ ↔ _ ∧ nodesBehind path (itemsOf nodes) ≠ []
              simpa [IsMonoidPath] using hpart elem

/-- Every position that holds an array holds an element. -/
def ArraysHoldElements (doc : Node) : Prop :=
  ∀ path, 0 < countRank 4 (nodesBehind path [doc]) → itemsOf (nodesBehind path [doc]) ≠ []

theorem paths_agree_iff (doc : Node) :
    (∀ path, IsMonoidPath path (.fromNode doc) ↔ IsFieldPath path (shapeOf doc)) ↔
      ArraysHoldElements doc := by
  have hmonoid (path : List PathSegment) (segment : PathSegment) :
      IsMonoidPath (path ++ [segment]) (.fromNode doc) ↔
        nodesBehind [segment] (nodesBehind path [doc]) ≠ [] := by
    rw [isMonoidPath_iff (fromNode_summarizes doc), nodesBehind_append_singleton]
    simp
  have hshape (path : List PathSegment) (segment : PathSegment) :
      IsFieldPath (path ++ [segment]) (shapeOf doc) ↔ Offers segment (nodesBehind path [doc]) := by
    rw [← isFieldPath_iff_offers]
    simp
  have harray {nodes : List Node} (hitems : itemsOf nodes ≠ []) : 0 < countRank 4 nodes := by
    rcases List.exists_mem_of_ne_nil _ hitems with ⟨item, hitem⟩
    rcases mem_map_itemsOf.mp (List.mem_map_of_mem hitem) with ⟨outer, houter, helement⟩
    exact countRank_pos.mpr ⟨outer, houter, rank_of_mem_elements helement⟩
  constructor
  · intro hagree path harrays
    exact (hmonoid path .wildcard).mp ((hagree _).mpr ((hshape path .wildcard).mpr harrays))
  · intro helements path
    rcases List.eq_nil_or_concat path with rfl | ⟨path, segment, rfl⟩
    · simp [IsMonoidPath, IsFieldPath]
    · rw [List.concat_eq_append, hmonoid, hshape]
      cases segment with
      | key key => rfl
      | wildcard => exact ⟨harray, helements path⟩

/-! ## Both grammars -/

section

variable {fromStr : Bytes → Except String Value} {limit : ℕ} {doc : Node}

/-- Reading a text and walking it from the root. -/
theorem readAndWalk_ok {text : JsonText} {walk : Value → List PathSegment → Paths →
      Except PathError Paths} {found : List PathSegment → Prop}
    (hreads : ReadsText fromStr limit text) (hwalk : Adds (walk text.value) found)
    {paths : Paths} :
    ((fromStr text.write).mapError .invalidCanonicalJson >>= fun value ↦ walk value [] ∅) =
        .ok paths ↔
      text.nesting < limit ∧ ∀ path, path ∈ paths ↔ found path := by
  rcases hwalk [] ∅ with ⟨walked, hwalked, hmem⟩
  have hfound (path : List PathSegment) : path ∈ walked ↔ found path := by simp [hmem]
  by_cases hnesting : text.nesting < limit
  · rw [ReadsText, if_pos hnesting] at hreads
    rw [hreads]
    change walk text.value [] ∅ = _ ↔ _
    rw [hwalked, Except.ok.injEq, Finset.ext_iff]
    simp only [hfound, hnesting, true_and]
    exact forall_congr' fun path ↦ iff_comm
  · rw [ReadsText, if_neg hnesting] at hreads
    rcases hreads with ⟨message, hmessage⟩
    rw [hmessage]
    constructor
    · intro heq
      cases heq
    · exact fun hboth ↦ absurd hboth.1 hnesting

/-- From the canonical bytes of a shape its true field paths are derived. -/
theorem canonicalFieldPaths_eq_ok (hreads : ReadsText fromStr limit (shapeText (shapeOf doc)))
    {paths : Paths} :
    canonicalFieldPaths fromStr (canonicalBytes (shapeOf doc)) = .ok paths ↔
      (shapeText (shapeOf doc)).nesting < limit ∧
        ∀ path, path ∈ paths ↔ IsFieldPath path (shapeOf doc) := by
  unfold canonicalFieldPaths
  rw [canonicalBytes_eq]
  exact readAndWalk_ok hreads (walkShape_adds (sortedShape_shapeOf doc))

/-- From the generalized JSON of a profile the paths of its root are derived. -/
theorem profileFieldPaths_eq_ok {profile : Profile} (hsorted : profile.root.Sorted)
    (hreads : ReadsText fromStr limit (profileText profile)) {paths : Paths} :
    canonicalFieldPathsFor fromStr generalizer profile.generalizedCanonicalJson = .ok paths ↔
      (profileText profile).nesting < limit ∧
        ∀ path, path ∈ paths ↔ IsMonoidPath path profile.root := by
  have hname : generalizer ≠ canonicalizer := by decide
  have hbytes := generalizedCanonicalJson_eq profile
  unfold canonicalFieldPathsFor
  rw [if_neg hname, if_pos rfl, hbytes]
  exact readAndWalk_ok hreads (walkMonoidField_adds hsorted profile.count)

theorem monoidFieldPaths_eq_ok (hreads : ReadsText fromStr limit (profileText (.fromNode doc)))
    {paths : Paths} :
    canonicalFieldPathsFor fromStr generalizer
        (Profile.fromNode doc).generalizedCanonicalJson = .ok paths ↔
      (profileText (.fromNode doc)).nesting < limit ∧
        ∀ path, path ∈ paths ↔ IsMonoidPath path (.fromNode doc) :=
  profileFieldPaths_eq_ok (sorted_fromNode doc) hreads

/-- The grammars agree on a document, and with its true field paths, exactly if every position that
holds an array holds an element and neither form is nested too deep to be read. -/
theorem path_grammars_agree_iff (hshape : ReadsText fromStr limit (shapeText (shapeOf doc)))
    (hprofile : ReadsText fromStr limit (profileText (.fromNode doc))) :
    (∃ paths, canonicalFieldPaths fromStr (canonicalBytes (shapeOf doc)) = .ok paths ∧
      canonicalFieldPathsFor fromStr generalizer
        (Profile.fromNode doc).generalizedCanonicalJson = .ok paths ∧
      ∀ path, path ∈ paths ↔ IsFieldPath path (shapeOf doc)) ↔
    ArraysHoldElements doc ∧ (shapeText (shapeOf doc)).nesting < limit ∧
      (profileText (.fromNode doc)).nesting < limit := by
  constructor
  · rintro ⟨paths, hcanonical, hmonoid, hfield⟩
    rw [canonicalFieldPaths_eq_ok hshape] at hcanonical
    rw [monoidFieldPaths_eq_ok hprofile] at hmonoid
    refine ⟨(paths_agree_iff doc).mp fun path ↦ ?_, hcanonical.1, hmonoid.1⟩
    rw [← hmonoid.2, hfield]
  · rintro ⟨helements, hshapeNesting, hprofileNesting⟩
    rcases walkShape_adds (sortedShape_shapeOf doc) [] ∅ with ⟨paths, -, hmem⟩
    have hfield (path : List PathSegment) : path ∈ paths ↔ IsFieldPath path (shapeOf doc) := by
      simp [hmem]
    refine ⟨paths, (canonicalFieldPaths_eq_ok hshape).mpr ⟨hshapeNesting, hfield⟩,
      (monoidFieldPaths_eq_ok hprofile).mpr ⟨hprofileNesting, fun path ↦ ?_⟩, hfield⟩
    rw [hfield, (paths_agree_iff doc).mpr helements]

end

theorem readerOf_reads {first second : JsonText} {limit : ℕ} (hwrite : first.write ≠ second.write)
    (hfirst : first.nesting < limit) (hsecond : second.nesting < limit) :
    ReadsText (readerOf [first, second]) limit first ∧
      ReadsText (readerOf [first, second]) limit second := by
  unfold ReadsText
  rw [if_pos hfirst, if_pos hsecond]
  simp [readerOf, hwrite]

/-- An empty array next to one with an element. -/
def mixedArrays : Node := .array [.array [] false, .array [.number "1"] false] false

theorem mixedArrays_holdElements : ArraysHoldElements mixedArrays := by
  have hnothing (path : List PathSegment) : ¬ 0 < countRank 4 (nodesBehind path []) := by
    simp [nodesBehind, nodesAt_nil, countRank]
  intro path harrays
  rcases path with _ | ⟨_ | _, path⟩
  · exact List.cons_ne_nil _ _
  · exact absurd harrays (hnothing path)
  rcases path with _ | ⟨_ | _, path⟩
  · exact List.cons_ne_nil _ _
  · exact absurd harrays (hnothing path)
  rcases path with _ | ⟨_ | _, path⟩
  · exact absurd harrays (by decide)
  · exact absurd harrays (hnothing path)
  · exact absurd harrays (hnothing path)

theorem path_grammars_agree_iff_mixed :
    ∃ fromStr paths, canonicalFieldPaths fromStr (canonicalBytes (shapeOf mixedArrays)) =
        .ok paths ∧
      canonicalFieldPathsFor fromStr generalizer
        (Profile.fromNode mixedArrays).generalizedCanonicalJson = .ok paths := by
  have hwrite : (shapeText (shapeOf mixedArrays)).write ≠
      (profileText (.fromNode mixedArrays)).write := by
    decide +kernel
  have hnesting : (shapeText (shapeOf mixedArrays)).nesting < 128 ∧
      (profileText (.fromNode mixedArrays)).nesting < 128 := by
    decide +kernel
  rcases readerOf_reads hwrite hnesting.1 hnesting.2 with ⟨hshape, hprofile⟩
  rcases (path_grammars_agree_iff hshape hprofile).mpr
    ⟨mixedArrays_holdElements, hnesting.1, hnesting.2⟩ with ⟨paths, hcanonical, hmonoid, -⟩
  exact ⟨_, paths, hcanonical, hmonoid⟩

/-- The shape of an empty array has a wildcard, its profile has no element. -/
theorem empty_array_paths_differ :
    ∃ fromStr, ReadsText fromStr 128 (shapeText (shapeOf sampleArray)) ∧
      ReadsText fromStr 128 (profileText (.fromNode sampleArray)) ∧
      canonicalFieldPaths fromStr (canonicalBytes (shapeOf sampleArray)) = .ok {[.wildcard]} ∧
      canonicalFieldPathsFor fromStr generalizer
        (Profile.fromNode sampleArray).generalizedCanonicalJson = .ok ∅ := by
  have hwrite : (shapeText (shapeOf sampleArray)).write ≠
      (profileText (.fromNode sampleArray)).write := by
    decide +kernel
  have hnesting : (shapeText (shapeOf sampleArray)).nesting < 128 ∧
      (profileText (.fromNode sampleArray)).nesting < 128 := by
    decide +kernel
  rcases readerOf_reads hwrite hnesting.1 hnesting.2 with ⟨hshape, hprofile⟩
  refine ⟨_, hshape, hprofile, (canonicalFieldPaths_eq_ok hshape).mpr ⟨hnesting.1, fun path ↦ ?_⟩,
    (monoidFieldPaths_eq_ok hprofile).mpr ⟨hnesting.2, fun path ↦ ?_⟩⟩
  · rw [Finset.mem_singleton]
    match path with
    | [] => simp [IsFieldPath]
    | .key _ :: _ => simp [IsFieldPath, shapeOf, sampleArray, Shape.valueAt]
    | .wildcard :: _ => simp [IsFieldPath, shapeOf, shapesOf, collectSet, sampleArray, Shape.rank,
        Shape.elements]
  · match path with
    | [] => simp [IsMonoidPath]
    | .key _ :: _ => simp [IsMonoidPath, FieldNode.fromNode, sampleArray, FieldNode.identity]
    | .wildcard :: _ => simp [IsMonoidPath, FieldNode.fromNode, sampleArray, mergeAll,
        FieldNode.fromNodes]

end Deblob.Semantic
