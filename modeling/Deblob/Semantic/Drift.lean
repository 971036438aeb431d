import Deblob.Semantic.DriftShapes

/-!
# Structural drift across encodings

A document is stored as its shape or as the profile of itself. Both forms have the same paths. They
say the same of a path where all nodes have one type and a container is not empty everywhere; the
shape keeps the first of several types, the profile all of them.
-/

namespace Deblob.Semantic

open Core Lib Fingerprint Deblob.Monoid
open Umbrella (Value)

/-! ## Nodes at a path -/

/-- All nodes have one type, and if they are containers one of them is not empty. -/
def Plain (rank : ℕ) (nodes : List Node) : Prop :=
  (∀ node ∈ nodes, node.rank = rank) ∧
    (4 ≤ rank → ∃ node ∈ nodes, node.items ≠ [] ∨ ∃ key, node.valueAt key ≠ none)

/-- What a shape says about a path it says about one of the nodes there. -/
theorem exists_node_of_shapeAt {path : List PathSegment} {nodes : List Node} {shape : Shape}
    {recorded : PathShape} (hshape : shape ∈ nodes.map shapeOf)
    (hrecorded : shapeAt path shape = some recorded) :
    ∃ node ∈ nodesBehind path nodes, recorded = rankShape node.rank := by
  induction path generalizing nodes shape with
  | nil =>
      rcases List.mem_map.mp hshape with ⟨node, hnode, rfl⟩
      cases hrecorded
      exact ⟨node, hnode, by rw [rank_shapeOf]⟩
  | cons segment path ih =>
      cases segment with
      | key key =>
          rcases Option.bind_eq_some_iff.mp hrecorded with ⟨value, hvalue, hrecorded⟩
          exact ih (mem_map_valuesAt.mpr ⟨shape, hshape, hvalue⟩) hrecorded
      | wildcard =>
          rcases List.exists_of_findSome?_eq_some hrecorded with ⟨element, helement, hrecorded⟩
          exact ih (mem_map_itemsOf.mpr ⟨shape, hshape, helement⟩) hrecorded

/-- A path that leads to nodes is recorded of one of the shapes. -/
theorem exists_shapeAt {path : List PathSegment} {nodes : List Node}
    (hnodes : nodesBehind path nodes ≠ []) :
    ∃ shape ∈ nodes.map shapeOf, (shapeAt path shape).isSome := by
  induction path generalizing nodes with
  | nil =>
      rcases List.exists_mem_of_ne_nil _ hnodes with ⟨node, hnode⟩
      exact ⟨shapeOf node, List.mem_map_of_mem hnode, rfl⟩
  | cons segment path ih =>
      cases segment with
      | key key =>
          rcases @ih (valuesAt key nodes) hnodes with ⟨value, hvalue, hsome⟩
          rcases mem_map_valuesAt.mp hvalue with ⟨shape, hshape, hat⟩
          exact ⟨shape, hshape, by rw [shapeAt, hat, Option.bind_some]; exact hsome⟩
      | wildcard =>
          rcases @ih (itemsOf nodes) hnodes with ⟨element, helement, hsome⟩
          rcases mem_map_itemsOf.mp helement with ⟨shape, hshape, hmem⟩
          exact ⟨shape, hshape, List.findSome?_isSome_iff.mpr ⟨element, hmem, hsome⟩⟩

/-- A profile records of a path the field that summarizes the nodes there. -/
theorem fieldShapeAt_part {part : Option FieldNode} {nodes : List Node}
    (hpart : SummarizesPart part nodes) (path : List PathSegment) :
    (part.bind (fieldShapeAt path) = none ∧ nodesBehind path nodes = []) ∨
      ∃ field, Summarizes field (nodesBehind path nodes) ∧ nodesBehind path nodes ≠ [] ∧
        part.bind (fieldShapeAt path) = some (fieldShape field) := by
  induction path generalizing part nodes with
  | nil =>
      cases hpart with
      | none => exact .inl ⟨rfl, rfl⟩
      | some nonempty summary => exact .inr ⟨_, summary, nonempty, rfl⟩
  | cons segment path ih =>
      cases hpart with
      | none => exact .inl ⟨rfl, nodesAt_nil _⟩
      | some nonempty summary =>
          cases summary with
          | intro _ _ _ children elem =>
              cases segment with
              | key key => exact ih (children key)
              | wildcard => exact ih elem

/-! ## Types of nodes -/

theorem rank_le_five (node : Node) : node.rank ≤ 5 := by
  cases node <;> simp [Node.rank]

theorem rankType_inj {left right : ℕ} (hleft : left ≤ 5) (hright : right ≤ 5)
    (heq : rankType left = rankType right) : left = right := by
  interval_cases left <;> interval_cases right <;> first | rfl | cases heq

/-- The types of a field are those of its nodes. -/
theorem mem_fieldTypes {nodes : List Node} {shapeType : ShapeType} :
    shapeType ∈ fieldTypes (typeCounts nodes) ↔ ∃ node ∈ nodes, rankType node.rank = shapeType := by
  have hrank (node : Node) {rank : ℕ} (hle : rank ≤ 5) :
      rankType node.rank = rankType rank ↔ node.rank = rank :=
    ⟨rankType_inj (rank_le_five node) hle, congrArg rankType⟩
  have hcount {rank : ℕ} (hle : rank ≤ 5) (htype : rankType rank = shapeType) :
      0 < countRank rank nodes ↔ ∃ node ∈ nodes, rankType node.rank = shapeType := by
    simp only [← htype, hrank _ hle, countRank, List.countP_pos_iff, decide_eq_true_eq]
  have hmem : shapeType ∈ fieldTypes (typeCounts nodes) ↔
      ∃ name ∈ typedCounts (typeCounts nodes), 0 < name.2.2 ∧ name.2.1 = shapeType := by
    simp [fieldTypes, and_assoc]
  rw [hmem]
  cases shapeType with
  | null => simpa [typedCounts, typeCounts] using @hcount 0 (by decide) rfl
  | bool => simpa [typedCounts, typeCounts] using @hcount 1 (by decide) rfl
  | num => simpa [typedCounts, typeCounts] using @hcount 2 (by decide) rfl
  | str => simpa [typedCounts, typeCounts] using @hcount 3 (by decide) rfl
  | arr => simpa [typedCounts, typeCounts] using @hcount 4 (by decide) rfl
  | obj => simpa [typedCounts, typeCounts] using @hcount 5 (by decide) rfl

theorem isNone_iff_of_part {part : Option FieldNode} {nodes : List Node}
    (hpart : SummarizesPart part nodes) : part.isNone = true ↔ nodes = [] := by
  cases hpart with
  | none => simp
  | some nonempty summary => simp [nonempty]

/-- A field has nothing below it exactly if its nodes have neither items nor members. -/
theorem isLeaf_iff {field : FieldNode} {nodes : List Node} (hsummary : Summarizes field nodes) :
    (fieldShape field).isLeaf = true ↔
      ∀ node ∈ nodes, node.items = [] ∧ ∀ key, node.valueAt key = none := by
  cases hsummary with
  | intro _ _ sorted children elem =>
      have hchildren : field.children.isEmpty = true ↔ ∀ key, valuesAt key nodes = [] := by
        rw [List.isEmpty_iff]
        constructor
        · intro hnil key
          rw [← isNone_iff_of_part (children key), hnil]
          rfl
        · intro hnone
          rw [List.eq_nil_iff_forall_not_mem]
          rintro ⟨key, child⟩ hmem
          have hlookup := isNone_iff_of_part (children key)
          rw [sorted.mem_iff.mp hmem] at hlookup
          exact absurd (hlookup.mpr (hnone key)) (by simp)
      have hitems : itemsOf nodes = [] ↔ ∀ node ∈ nodes, node.items = [] := by
        simp [itemsOf]
      have hvalues (key : String) :
          valuesAt key nodes = [] ↔ ∀ node ∈ nodes, node.valueAt key = none := by
        simp [valuesAt]
      unfold fieldShape
      rw [Bool.and_eq_true, hchildren, isNone_iff_of_part elem, hitems]
      simp only [hvalues]
      constructor
      · exact fun hboth node hnode ↦ ⟨hboth.2 node hnode, fun key ↦ hboth.1 key node hnode⟩
      · exact fun hall ↦ ⟨fun key node hnode ↦ (hall node hnode).2 key,
          fun node hnode ↦ (hall node hnode).1⟩

theorem scalar_of_rank_lt {node : Node} (hrank : node.rank < 4) :
    node.items = [] ∧ ∀ key, node.valueAt key = none := by
  cases node with
  | array items truncated => exact absurd hrank (by simp [Node.rank])
  | object fields => exact absurd hrank (by simp [Node.rank])
  | _ => exact ⟨rfl, fun _ ↦ rfl⟩

/-- The two forms say the same of a path exactly if its nodes are plain. -/
theorem fieldShape_eq_rankShape_iff {field : FieldNode} {nodes : List Node} {rank : ℕ}
    (hsummary : Summarizes field nodes) (hnonempty : nodes ≠ []) (hrank : rank ≤ 5) :
    fieldShape field = rankShape rank ↔ Plain rank nodes := by
  have htypes : (fieldShape field).types = {rankType rank} ↔ ∀ node ∈ nodes, node.rank = rank := by
    have hfield : (fieldShape field).types = fieldTypes (typeCounts nodes) := by
      cases hsummary with
      | intro _ types _ _ _ => exact congrArg fieldTypes types
    rw [hfield, Finset.eq_singleton_iff_nonempty_unique_mem]
    constructor
    · intro hunique node hnode
      have hmem := mem_fieldTypes.mpr ⟨node, hnode, rfl⟩
      exact rankType_inj (rank_le_five node) hrank (hunique.2 _ hmem)
    · intro hall
      rcases List.exists_mem_of_ne_nil nodes hnonempty with ⟨node, hnode⟩
      refine ⟨⟨_, mem_fieldTypes.mpr ⟨node, hnode, rfl⟩⟩, fun shapeType hmem ↦ ?_⟩
      rcases mem_fieldTypes.mp hmem with ⟨node, hnode, rfl⟩
      rw [hall node hnode]
  have hshape : fieldShape field = rankShape rank ↔
      ((fieldShape field).isLeaf = true ↔ rank < 4) ∧
        (fieldShape field).types = {rankType rank} := by
    rw [PathShape.mk.injEq, Bool.eq_iff_iff]
    simp [rankShape]
  rw [hshape, htypes, isLeaf_iff hsummary, Plain, and_comm]
  apply and_congr_right
  intro hall
  rcases Nat.lt_or_ge rank 4 with hscalar | hcontainer
  · have hnone : ∀ node ∈ nodes, node.items = [] ∧ ∀ key, node.valueAt key = none :=
      fun node hnode ↦ scalar_of_rank_lt ((hall node hnode).trans_lt hscalar)
    exact iff_of_true (iff_of_true hnone hscalar) fun hge ↦ absurd hscalar (not_lt.mpr hge)
  · simp only [not_lt.mpr hcontainer, iff_false, hcontainer, true_imp_iff]
    push Not
    exact exists_congr fun node ↦ and_congr_right fun _ ↦ imp_iff_not_or

/-! ## Encodings -/

/-- A form a document is stored in. -/
inductive Encoding where
  | canon
  | monoid

namespace Encoding

def name : Encoding → String
  | canon => canonicalizer
  | monoid => generalizer

def bytes (doc : Node) : Encoding → Bytes
  | canon => canonicalBytes (shapeOf doc)
  | monoid => (Profile.fromNode doc).generalizedCanonicalJson

def text (doc : Node) : Encoding → JsonText
  | canon => shapeText (shapeOf doc)
  | monoid => profileText (.fromNode doc)

/-- What the form records of a path. -/
def recorded (doc : Node) : Encoding → List PathSegment → Option PathShape
  | canon => strictly (shapeAt · (shapeOf doc))
  | monoid => strictly (fieldShapeAt · (.fromNode doc))

end Encoding

/-- Both forms record exactly the paths that lead to nodes. -/
theorem isSome_recorded (doc : Node) (encoding : Encoding) (path : List PathSegment) :
    (encoding.recorded doc path).isSome ↔ path ≠ [] ∧ nodesBehind path [doc] ≠ [] := by
  by_cases hroot : path = []
  · subst hroot
    cases encoding <;> simp [Encoding.recorded, strictly]
  · cases encoding with
    | canon =>
        simp only [Encoding.recorded, strictly, hroot, if_false, ne_eq, not_false_eq_true, true_and]
        constructor
        · intro hsome
          rcases Option.isSome_iff_exists.mp hsome with ⟨recorded, hrecorded⟩
          have hshape : shapeOf doc ∈ [doc].map shapeOf := List.mem_singleton_self _
          rcases exists_node_of_shapeAt hshape hrecorded with ⟨node, hnode, -⟩
          exact List.ne_nil_of_mem hnode
        · intro hnodes
          rcases exists_shapeAt hnodes with ⟨shape, hshape, hsome⟩
          rwa [List.mem_singleton.mp hshape] at hsome
    | monoid =>
        simp only [Encoding.recorded, strictly, hroot, if_false, ne_eq, not_false_eq_true, true_and]
        have hpart : SummarizesPart (some (.fromNode doc)) [doc] :=
          .some (List.cons_ne_nil _ _) (fromNode_summarizes doc)
        rcases fieldShapeAt_part hpart path with ⟨hnone, hnodes⟩ | ⟨field, -, hnodes, hsome⟩
        · rw [Option.bind_some] at hnone
          simp [hnone, hnodes]
        · rw [Option.bind_some] at hsome
          simp [hsome, hnodes]

/-- A path with plain nodes has one record, whatever the form. -/
theorem recorded_of_plain {doc : Node} {path : List PathSegment} {rank : ℕ} (hroot : path ≠ [])
    (hnodes : nodesBehind path [doc] ≠ []) (hplain : Plain rank (nodesBehind path [doc]))
    (encoding : Encoding) : encoding.recorded doc path = some (rankShape rank) := by
  cases encoding with
  | canon =>
      have hsome := (isSome_recorded doc .canon path).mpr ⟨hroot, hnodes⟩
      rcases Option.isSome_iff_exists.mp hsome with ⟨recorded, hrecorded⟩
      rw [hrecorded]
      simp only [Encoding.recorded, strictly, hroot, if_false] at hrecorded
      have hshape : shapeOf doc ∈ [doc].map shapeOf := List.mem_singleton_self _
      rcases exists_node_of_shapeAt hshape hrecorded with ⟨node, hnode, rfl⟩
      rw [hplain.1 node hnode]
  | monoid =>
      have hpart : SummarizesPart (some (.fromNode doc)) [doc] :=
        .some (List.cons_ne_nil _ _) (fromNode_summarizes doc)
      rcases fieldShapeAt_part hpart path with ⟨-, hnone⟩ | ⟨field, hsummary, -, hsome⟩
      · exact absurd hnone hnodes
      · rcases List.exists_mem_of_ne_nil _ hnodes with ⟨node, hnode⟩
        have hrank : rank ≤ 5 := hplain.1 node hnode ▸ rank_le_five node
        simp only [Encoding.recorded, strictly, hroot, if_false]
        rw [Option.bind_some] at hsome
        rw [hsome, (fieldShape_eq_rankShape_iff hsummary hnodes hrank).mpr hplain]

/-! ## Members added -/

/-- The second document is the first one with members added at any depth. -/
inductive Extends : Node → Node → Prop
  | scalar {node : Node} (rank : node.rank < 4) : Extends node node
  | array {items others : List Node} {truncated : Bool} (length : items.length = others.length)
      (parts : ∀ (index : ℕ) (item other : Node), items[index]? = some item →
        others[index]? = some other → Extends item other) :
      Extends (.array items truncated) (.array others truncated)
  | object {fields others : List (String × Node)}
      (keys : ∀ key, (Node.object fields).valueAt key ≠ none →
        (Node.object others).valueAt key ≠ none)
      (parts : ∀ (key : String) (value other : Node),
        (Node.object fields).valueAt key = some value →
        (Node.object others).valueAt key = some other → Extends value other) :
      Extends (.object fields) (.object others)

namespace Extends

variable {node other : Node}

theorem rank_eq (hextends : Extends node other) : node.rank = other.rank := by
  cases hextends <;> rfl

theorem valueAt (hextends : Extends node other) {key : String} {value : Node}
    (hvalue : node.valueAt key = some value) :
    ∃ more, other.valueAt key = some more ∧ Extends value more := by
  cases hextends with
  | scalar rank => cases (scalar_of_rank_lt rank).2 key ▸ hvalue
  | array length parts => cases hvalue
  | object keys parts =>
      rcases Option.ne_none_iff_exists'.mp (keys key (hvalue ▸ Option.some_ne_none _)) with
        ⟨more, hmore⟩
      exact ⟨more, hmore, parts key value more hvalue hmore⟩

theorem items (hextends : Extends node other) {item : Node} (hitem : item ∈ node.items) :
    ∃ more ∈ other.items, Extends item more := by
  cases hextends with
  | scalar rank => cases (scalar_of_rank_lt rank).1 ▸ hitem
  | @array items others _ length parts =>
      rcases List.mem_iff_getElem?.mp hitem with ⟨index, hindex⟩
      change items[index]? = some item at hindex
      rcases List.getElem?_eq_some_iff.mp hindex with ⟨hlt, -⟩
      have hmore := List.getElem?_eq_getElem (length ▸ hlt : index < others.length)
      exact ⟨_, List.mem_of_getElem? hmore, parts index item _ hindex hmore⟩
  | object keys parts => cases hitem

/-- At every path a node of the smaller document has one that extends it. -/
theorem exists_extension {nodes others : List Node}
    (hnodes : ∀ node ∈ nodes, ∃ other ∈ others, Extends node other) (path : List PathSegment) :
    ∀ node ∈ nodesBehind path nodes, ∃ other ∈ nodesBehind path others, Extends node other := by
  induction path generalizing nodes others with
  | nil => exact hnodes
  | cons segment path ih =>
      cases segment with
      | key key =>
          apply @ih (valuesAt key nodes) (valuesAt key others)
          intro value hvalue
          rcases List.mem_filterMap.mp hvalue with ⟨node, hnode, hat⟩
          rcases hnodes node hnode with ⟨other, hother, hextends⟩
          rcases hextends.valueAt hat with ⟨more, hmore, hpart⟩
          exact ⟨more, List.mem_filterMap.mpr ⟨other, hother, hmore⟩, hpart⟩
      | wildcard =>
          apply @ih (itemsOf nodes) (itemsOf others)
          intro item hitem
          rcases List.mem_flatMap.mp hitem with ⟨node, hnode, hmem⟩
          rcases hnodes node hnode with ⟨other, hother, hextends⟩
          rcases hextends.items hmem with ⟨more, hmore, hpart⟩
          exact ⟨more, List.mem_flatMap.mpr ⟨other, hother, hmore⟩, hpart⟩

end Extends

/-! ## Relations -/

/-- At every path that both documents have, either has plain nodes. -/
def PlainWhereShared (left right : Node) : Prop :=
  ∀ path, path ≠ [] → nodesBehind path [left] ≠ [] → nodesBehind path [right] ≠ [] →
    (∃ rank, Plain rank (nodesBehind path [left])) ∧ ∃ rank, Plain rank (nodesBehind path [right])

section

variable {fromStr : Bytes → Except String Value} {limit : ℕ}

/-- A form that can be read gives its records. -/
theorem typedPathsFor_eq_ok {doc : Node} {encoding : Encoding}
    (hreads : ReadsText fromStr limit (encoding.text doc))
    (hnesting : (encoding.text doc).nesting < limit) :
    ∃ types, typedPathsFor fromStr encoding.name (encoding.bytes doc) = .ok types ∧
      ∀ path, types.lookup path = encoding.recorded doc path := by
  rw [ReadsText, if_pos hnesting] at hreads
  cases encoding with
  | canon =>
      rcases walkTyped_records (sortedShape_shapeOf doc) [] ∅ with ⟨types, htypes, hlookup, -⟩
      refine ⟨types, ?_, fun path ↦ (hlookup path).trans (Option.none_or)⟩
      change typedPaths fromStr (canonicalBytes (shapeOf doc)) = _
      unfold typedPaths
      rw [canonicalBytes_eq]
      change fromStr (shapeText (shapeOf doc)).write = _ at hreads
      rw [hreads]
      exact htypes
  | monoid =>
      rcases walkTypedMonoid_records (sorted_fromNode doc) 1 [] ∅ with ⟨types, htypes, hlookup, -⟩
      refine ⟨types, ?_, fun path ↦ (hlookup path).trans (Option.none_or)⟩
      have hbytes := generalizedCanonicalJson_eq (.fromNode doc)
      change typedPathsMonoid fromStr (Profile.fromNode doc).generalizedCanonicalJson = _
      unfold typedPathsMonoid
      rw [hbytes]
      change fromStr (profileText (.fromNode doc)).write = _ at hreads
      rw [hreads]
      exact htypes

/-- The relation of two documents in the forms they are stored in. -/
def relation (fromStr : Bytes → Except String Value) (encoding : Encoding) (doc : Node)
    (otherEncoding : Encoding) (other : Node) : Except ShapeWalkError StructuralRelation :=
  structuralRelation fromStr encoding.name (encoding.bytes doc) otherEncoding.name
    (otherEncoding.bytes other)

/-- Readable forms are related by what they record. -/
theorem relation_eq_ok {left right : Node} {encoding otherEncoding : Encoding}
    (hleft : ReadsText fromStr limit (encoding.text left) ∧ (encoding.text left).nesting < limit)
    (hright : ReadsText fromStr limit (otherEncoding.text right) ∧
      (otherEncoding.text right).nesting < limit) :
    ∃ leftTypes rightTypes : TypedPaths,
      relation fromStr encoding left otherEncoding right = .ok (relationOf leftTypes rightTypes) ∧
      relation fromStr otherEncoding right encoding left = .ok (relationOf rightTypes leftTypes) ∧
      (∀ path, leftTypes.lookup path = encoding.recorded left path) ∧
      ∀ path, rightTypes.lookup path = otherEncoding.recorded right path := by
  rcases typedPathsFor_eq_ok hleft.1 hleft.2 with ⟨leftTypes, hleftTypes, hleftLookup⟩
  rcases typedPathsFor_eq_ok hright.1 hright.2 with ⟨rightTypes, hrightTypes, hrightLookup⟩
  refine ⟨leftTypes, rightTypes, ?_, ?_, hleftLookup, hrightLookup⟩
  all_goals
    unfold relation structuralRelation
    rw [hleftTypes, hrightTypes]
    rfl

theorem mem_of_recorded {doc : Node} {encoding : Encoding} {types : TypedPaths}
    (hlookup : ∀ path, types.lookup path = encoding.recorded doc path) (path : List PathSegment) :
    path ∈ types ↔ path ≠ [] ∧ nodesBehind path [doc] ≠ [] := by
  rw [← AList.lookup_isSome, hlookup, isSome_recorded]

/-- Plain nodes on both sides have one type if one document extends the other. -/
theorem rank_eq_of_extends {left right : Node} {path : List PathSegment} {rank otherRank : ℕ}
    (hextends : Extends left right) (hnodes : nodesBehind path [left] ≠ [])
    (hleft : Plain rank (nodesBehind path [left]))
    (hright : Plain otherRank (nodesBehind path [right])) : rank = otherRank := by
  rcases List.exists_mem_of_ne_nil _ hnodes with ⟨node, hnode⟩
  have hsingle : ∀ node ∈ [left], ∃ other ∈ [right], Extends node other := by
    intro node hnode
    rw [List.mem_singleton.mp hnode]
    exact ⟨right, List.mem_singleton_self right, hextends⟩
  rcases Extends.exists_extension hsingle path node hnode with ⟨other, hother, hpart⟩
  calc rank = node.rank := (hleft.1 node hnode).symm
    _ = other.rank := hpart.rank_eq
    _ = otherRank := hright.1 other hother

/-- Of readable documents the relation is reflexive in one form and symmetric. Where the nodes at
every shared path are plain it does not depend on the forms, and added members keep it
compatible. -/
theorem structuralRelation_agnostic {left right : Node}
    (hreads : ∀ encoding : Encoding, ∀ doc ∈ [left, right],
      ReadsText fromStr limit (encoding.text doc) ∧ (encoding.text doc).nesting < limit) :
    (∀ encoding, ∀ doc ∈ [left, right],
      relation fromStr encoding doc encoding doc = .ok .compatible) ∧
    (∀ encoding otherEncoding, relation fromStr encoding left otherEncoding right =
      relation fromStr otherEncoding right encoding left) ∧
    (PlainWhereShared left right →
      (∀ encoding otherEncoding encoding' otherEncoding',
        relation fromStr encoding left otherEncoding right =
          relation fromStr encoding' left otherEncoding' right) ∧
      (Extends left right ∨ Extends right left → ∀ encoding otherEncoding,
        relation fromStr encoding left otherEncoding right = .ok .compatible)) := by
  have hleft (encoding : Encoding) := hreads encoding left (by simp)
  have hright (encoding : Encoding) := hreads encoding right (by simp)
  refine ⟨fun encoding doc hdoc ↦ ?_, fun encoding otherEncoding ↦ ?_, fun hplain ↦
    ⟨fun encoding otherEncoding encoding' otherEncoding' ↦ ?_,
      fun hextends encoding otherEncoding ↦ ?_⟩⟩
  · have hdoc := hreads encoding doc hdoc
    rcases relation_eq_ok hdoc hdoc with ⟨types, others, hrelation, -, hlookup, hothers⟩
    rw [hrelation, (relationOf_spec types others).1.mpr]
    intro path _ _
    rw [hlookup, hothers]
  · rcases relation_eq_ok (hleft encoding) (hright otherEncoding) with
      ⟨types, others, hrelation, hback, -, -⟩
    rw [hrelation, hback, relationOf_comm]
  · rcases relation_eq_ok (hleft encoding) (hright otherEncoding) with
      ⟨types, others, hrelation, -, hlookup, hothers⟩
    rcases relation_eq_ok (hleft encoding') (hright otherEncoding') with
      ⟨types', others', hrelation', -, hlookup', hothers'⟩
    rw [hrelation, hrelation']
    congr 1
    apply relationOf_congr
    · exact fun path ↦ (mem_of_recorded hlookup path).trans (mem_of_recorded hlookup' path).symm
    · exact fun path ↦ (mem_of_recorded hothers path).trans (mem_of_recorded hothers' path).symm
    · intro path hmem hother
      have hnodes := (mem_of_recorded hlookup path).mp hmem
      have hothersNodes := (mem_of_recorded hothers path).mp hother
      rcases hplain path hnodes.1 hnodes.2 hothersNodes.2 with ⟨⟨rank, hrank⟩, other, hrankOther⟩
      rw [hlookup, hothers, hlookup', hothers']
      simp only [recorded_of_plain hnodes.1 hnodes.2 hrank,
        recorded_of_plain hnodes.1 hothersNodes.2 hrankOther]
  · rcases relation_eq_ok (hleft encoding) (hright otherEncoding) with
      ⟨types, others, hrelation, -, hlookup, hothers⟩
    rw [hrelation, (relationOf_spec types others).1.mpr]
    intro path hmem hother
    have hnodes := (mem_of_recorded hlookup path).mp hmem
    have hothersNodes := (mem_of_recorded hothers path).mp hother
    rcases hplain path hnodes.1 hnodes.2 hothersNodes.2 with ⟨⟨rank, hrank⟩, other, hrankOther⟩
    have heq : rank = other := by
      rcases hextends with hextends | hextends
      · exact rank_eq_of_extends hextends hnodes.2 hrank hrankOther
      · exact (rank_eq_of_extends hextends hothersNodes.2 hrankOther hrank).symm
    rw [hlookup, hothers, recorded_of_plain hnodes.1 hnodes.2 hrank,
      recorded_of_plain hnodes.1 hothersNodes.2 hrankOther, heq]

/-- Its two forms are compatible exactly if a document has plain nodes at every path. -/
theorem mixed_compatible_iff {doc : Node}
    (hreads : ∀ encoding : Encoding,
      ReadsText fromStr limit (encoding.text doc) ∧ (encoding.text doc).nesting < limit) :
    relation fromStr .canon doc .monoid doc = .ok .compatible ↔
      ∀ path, path ≠ [] → nodesBehind path [doc] ≠ [] →
        ∃ rank, Plain rank (nodesBehind path [doc]) := by
  rcases relation_eq_ok (hreads .canon) (hreads .monoid) with
    ⟨types, others, hrelation, -, hlookup, hothers⟩
  rw [hrelation, Except.ok.injEq, (relationOf_spec types others).1]
  constructor
  · intro hagree path hroot hnodes
    have hmem := (mem_of_recorded hlookup path).mpr ⟨hroot, hnodes⟩
    have heq := hagree path hmem ((mem_of_recorded hothers path).mpr ⟨hroot, hnodes⟩)
    rw [hlookup, hothers] at heq
    rcases Option.isSome_iff_exists.mp
      ((isSome_recorded doc .canon path).mpr ⟨hroot, hnodes⟩) with ⟨recorded, hrecorded⟩
    rw [hrecorded] at heq
    simp only [Encoding.recorded, strictly, hroot, if_false] at hrecorded heq
    have hshape : shapeOf doc ∈ [doc].map shapeOf := List.mem_singleton_self _
    rcases exists_node_of_shapeAt hshape hrecorded with ⟨node, hnode, rfl⟩
    have hpart : SummarizesPart (some (.fromNode doc)) [doc] :=
      .some (List.cons_ne_nil _ _) (fromNode_summarizes doc)
    rcases fieldShapeAt_part hpart path with ⟨-, hnone⟩ | ⟨field, hsummary, -, hsome⟩
    · exact absurd hnone hnodes
    · rw [Option.bind_some, ← heq, Option.some.injEq] at hsome
      exact ⟨node.rank, (fieldShape_eq_rankShape_iff hsummary hnodes (rank_le_five node)).mp
        hsome.symm⟩
  · intro hplain path hmem hother
    have hnodes := (mem_of_recorded hlookup path).mp hmem
    rcases hplain path hnodes.1 hnodes.2 with ⟨rank, hrank⟩
    rw [hlookup, hothers, recorded_of_plain hnodes.1 hnodes.2 hrank,
      recorded_of_plain hnodes.1 hnodes.2 hrank]

end

/-! ## Samples -/

def sampleObject : Node := .object [("a", .number "1")]

def sampleExtension : Node := .object [("a", .number "1"), ("b", .null)]

theorem sample_plain : PlainWhereShared sampleObject sampleExtension := by
  intro path hroot hnodes _
  match path with
  | [] => exact absurd rfl hroot
  | .wildcard :: path => exact absurd (nodesAt_nil _) hnodes
  | .key name :: path =>
      by_cases hname : name = "a"
      · subst hname
        match path with
        | [] =>
            have hscalar : ¬ 4 ≤ 2 := by decide
            exact ⟨⟨2, by decide, fun hle ↦ absurd hle hscalar⟩, 2, by decide,
              fun hle ↦ absurd hle hscalar⟩
        | .key _ :: path => exact absurd (nodesAt_nil _) hnodes
        | .wildcard :: path => exact absurd (nodesAt_nil _) hnodes
      · have hnone : valuesAt name [sampleObject] = [] := by
          simp [valuesAt, sampleObject, Node.valueAt, hname]
        apply absurd _ hnodes
        change nodesBehind path (valuesAt name [sampleObject]) = []
        rw [hnone]
        exact nodesAt_nil _

theorem sample_extends : Extends sampleObject sampleExtension := by
  apply Extends.object
  · intro key hkey
    simp only [Node.valueAt, List.reverse_cons, List.reverse_nil, List.nil_append,
      List.singleton_append, lookup_cons_eq, List.lookup_nil] at hkey ⊢
    split_ifs at hkey ⊢ <;> simp_all
  · intro key value other hvalue hother
    simp only [Node.valueAt, List.reverse_cons, List.reverse_nil, List.nil_append,
      List.singleton_append, lookup_cons_eq, List.lookup_nil] at hvalue hother
    split_ifs at hvalue hother with hkey
    · subst hkey
      rename_i hother'
      exact absurd hother' (by decide)
    · cases hvalue
      cases hother
      exact .scalar (by decide)

/-- Both forms of some documents. -/
def formsOf (docs : List Node) : List JsonText :=
  docs.flatMap fun doc ↦ [Encoding.canon.text doc, Encoding.monoid.text doc]

theorem readerOf_formsOf {docs : List Node} {limit : ℕ}
    (hwrite : (formsOf docs).Pairwise fun first second ↦ first.write ≠ second.write)
    (hnesting : ∀ text ∈ formsOf docs, text.nesting < limit) (encoding : Encoding) :
    ∀ doc ∈ docs, ReadsText (readerOf (formsOf docs)) limit (encoding.text doc) ∧
      (encoding.text doc).nesting < limit := by
  intro doc hdoc
  have hmem : encoding.text doc ∈ formsOf docs := by
    apply List.mem_flatMap.mpr ⟨doc, hdoc, _⟩
    cases encoding <;> simp
  exact ⟨readerOf_readsText hwrite hnesting _ hmem, hnesting _ hmem⟩

theorem structuralRelation_agnostic_sample :
    ∃ fromStr, ∀ encoding otherEncoding,
      relation fromStr encoding sampleObject otherEncoding sampleExtension = .ok .compatible := by
  have hwrite : (formsOf [sampleObject, sampleExtension]).Pairwise
      fun first second ↦ first.write ≠ second.write := by
    decide +kernel
  have hnesting : ∀ text ∈ formsOf [sampleObject, sampleExtension], text.nesting < 128 := by
    simp only [formsOf, List.flatMap_cons, List.flatMap_nil, List.append_nil, List.cons_append,
      List.nil_append, List.forall_mem_cons]
    decide +kernel
  have hreads := readerOf_formsOf hwrite hnesting
  exact ⟨_, ((structuralRelation_agnostic hreads).2.2 sample_plain).2 (.inl sample_extends)⟩

/-- An array of a number and a text: the shape keeps one of the types, the profile both. -/
def sampleUnion : Node := .array [.number "1", .string "a"] false

theorem union_forms_not_compatible :
    ∃ fromStr, (∀ encoding : Encoding, ReadsText fromStr 128 (encoding.text sampleUnion)) ∧
      relation fromStr .canon sampleUnion .canon sampleUnion = .ok .compatible ∧
      relation fromStr .canon sampleUnion .monoid sampleUnion ≠ .ok .compatible := by
  have hwrite : (formsOf [sampleUnion]).Pairwise
      fun first second ↦ first.write ≠ second.write := by
    decide +kernel
  have hnesting : ∀ text ∈ formsOf [sampleUnion], text.nesting < 128 := by
    simp only [formsOf, List.flatMap_cons, List.flatMap_nil, List.append_nil,
      List.forall_mem_cons]
    decide +kernel
  have hreads := fun encoding ↦
    readerOf_formsOf hwrite hnesting encoding sampleUnion (List.mem_singleton_self _)
  refine ⟨_, fun encoding ↦ (hreads encoding).1, ?_, ?_⟩
  · rcases relation_eq_ok (hreads .canon) (hreads .canon) with
      ⟨types, others, hrelation, -, hlookup, hothers⟩
    rw [hrelation, (relationOf_spec types others).1.mpr]
    intro path _ _
    rw [hlookup, hothers]
  · intro hcompatible
    have hplain := (mixed_compatible_iff hreads).mp hcompatible [.wildcard] (by decide)
      (List.cons_ne_nil _ _)
    rcases hplain with ⟨rank, hrank, -⟩
    have hnumber := hrank (.number "1") (by simp [nodesBehind, nodesAt, pathStep, sampleUnion,
      itemsOf, Node.items])
    have htext := hrank (.string "a") (by simp [nodesBehind, nodesAt, pathStep, sampleUnion,
      itemsOf, Node.items])
    exact absurd (hnumber.trans htext.symm) (by decide)

end Deblob.Semantic
