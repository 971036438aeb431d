import Deblob.Cold.GeneralizedSummary
import Deblob.Monoid.Laws

/-!
# The summary of a profile and the summaries of its documents

The hot path looks a document up under the summary of its shape, the cold path publishes a schema
under the summary of a merged profile. The profile's depth is the greatest depth of its documents'
shapes and its keys are the union of theirs, however the documents were merged; the profile of a
single document has the document's own summary.
-/

namespace Deblob.Cold

open Core Lib Fingerprint
open Deblob.Monoid

/-! ## Upper bounds of a depth -/

theorem elementsDepth_le_iff {shapes : List Shape} {bound : ℕ} :
    elementsDepth shapes ≤ bound ↔ ∀ shape ∈ shapes, shapeDepth shape ≤ bound := by
  induction shapes with
  | nil => simp [elementsDepth]
  | cons shape shapes ih => rw [elementsDepth, max_le_iff, ih, List.forall_mem_cons]

theorem fieldsDepth_le_iff {fields : List (String × Shape)} {bound : ℕ} :
    fieldsDepth fields ≤ bound ↔ ∀ field ∈ fields, shapeDepth field.2 ≤ bound := by
  induction fields with
  | nil => simp [fieldsDepth]
  | cons field fields ih => rw [fieldsDepth, max_le_iff, ih, List.forall_mem_cons]

theorem childrenDepth_le_iff {children : List (String × FieldNode)} {bound : ℕ} :
    childrenDepth children ≤ bound ↔ ∀ child ∈ children, fieldDepth child.2 ≤ bound := by
  induction children with
  | nil => simp [childrenDepth]
  | cons child children ih => rw [childrenDepth, max_le_iff, ih, List.forall_mem_cons]

theorem elemDepth_le_iff {part : Option FieldNode} {bound : ℕ} :
    elemDepth part ≤ bound ↔ ∀ field ∈ part, fieldDepth field ≤ bound := by
  cases part <;> simp [elemDepth]

theorem one_le_shapeDepth (shape : Shape) : 1 ≤ shapeDepth shape := by
  cases shape <;> simp [shapeDepth]

theorem fieldDepth_eq (field : FieldNode) :
    fieldDepth field = 1 + max (childrenDepth field.children) (elemDepth field.arrayElem) := by
  cases field
  rfl

/-- The entries of a sorted map, one key at a time. -/
theorem forall_entries_iff {V : Type} {map : List (String × V)} (hmap : SortedKeys map)
    {P : V → Prop} :
    (∀ entry ∈ map, P entry.2) ↔ ∀ key, ∀ value ∈ map.lookup key, P value := by
  constructor
  · intro hall key value hvalue
    exact hall (key, value) (hmap.mem_iff.mpr hvalue)
  · rintro hall ⟨key, value⟩ hentry
    exact hall key value (hmap.mem_iff.mp hentry)

/-- A shape is as deep as the deepest of its parts, and one more. -/
theorem shapeDepth_le_iff {node : Node} {bound : ℕ} :
    shapeDepth (shapeOf node) ≤ 1 + bound ↔
      (∀ key, ∀ value ∈ node.valueAt key, shapeDepth (shapeOf value) ≤ bound) ∧
        ∀ item ∈ node.items, shapeDepth (shapeOf item) ≤ bound := by
  cases node with
  | array items truncated =>
      rw [shapeOf, shapeDepth, Nat.add_le_add_iff_left, elementsDepth_le_iff]
      simp [mem_collectSet Shape.eq_of_cmp, shapesOf_eq, Node.valueAt, Node.items]
  | object fields =>
      rw [shapeOf, shapeDepth, Nat.add_le_add_iff_left, fieldsDepth_le_iff,
        forall_entries_iff (sortedKeys_collectMap _) (P := fun shape ↦ shapeDepth shape ≤ bound)]
      have hvalues (key : String) : (collectMap (fieldShapesOf fields)).lookup key =
          ((Node.object fields).valueAt key).map shapeOf :=
        valueAt_shapeOf key (.object fields)
      simp [hvalues, Node.items]
  | _ => simp [shapeOf, shapeDepth, Node.valueAt, Node.items]

/-! ## The depth of a profile -/

mutual

/-- A field is as deep as the deepest of the nodes it stands for. -/
theorem Summarizes.fieldDepth_le_iff : {field : FieldNode} → {nodes : List Node} →
    Summarizes field nodes → nodes ≠ [] → (bound : ℕ) →
      (fieldDepth field ≤ bound ↔ ∀ node ∈ nodes, shapeDepth (shapeOf node) ≤ bound)
  | field, nodes, .intro _ _ sorted children elem, hnodes, bound => by
    cases bound with
    | zero =>
        rcases List.exists_mem_of_ne_nil nodes hnodes with ⟨node, hnode⟩
        have hnode' := one_le_shapeDepth (shapeOf node)
        rw [fieldDepth_eq]
        constructor
        · intro hle
          omega
        · intro hall
          have hle := hall node hnode
          omega
    | succ bound =>
        rw [fieldDepth_eq, Nat.add_comm bound 1, Nat.add_le_add_iff_left, max_le_iff,
          childrenDepth_le_iff,
          forall_entries_iff sorted (P := fun child ↦ fieldDepth child ≤ bound)]
        have hchildren (key : String) :
            (∀ child ∈ field.children.lookup key, fieldDepth child ≤ bound) ↔
              ∀ value ∈ valuesAt key nodes, shapeDepth (shapeOf value) ≤ bound := by
          rw [← elemDepth_le_iff]
          exact SummarizesPart.elemDepth_le_iff (children key) bound
        rw [forall_congr' hchildren, SummarizesPart.elemDepth_le_iff elem bound]
        simp only [shapeDepth_le_iff, valuesAt, itemsOf, List.mem_filterMap, List.mem_flatMap]
        constructor
        · rintro ⟨hvalues, hitems⟩ node hnode
          exact ⟨fun key value hvalue ↦ hvalues key value ⟨node, hnode, hvalue⟩,
            fun item hitem ↦ hitems item ⟨node, hnode, hitem⟩⟩
        · intro hall
          constructor
          · rintro key value ⟨node, hnode, hvalue⟩
            exact (hall node hnode).1 key value hvalue
          · rintro item ⟨node, hnode, hitem⟩
            exact (hall node hnode).2 item hitem

theorem SummarizesPart.elemDepth_le_iff : {part : Option FieldNode} → {nodes : List Node} →
    SummarizesPart part nodes → (bound : ℕ) →
      (elemDepth part ≤ bound ↔ ∀ node ∈ nodes, shapeDepth (shapeOf node) ≤ bound)
  | _, _, .none, bound => by simp [elemDepth]
  | _, _, .some nonempty summary, bound => Summarizes.fieldDepth_le_iff summary nonempty bound

end

/-- The greatest of the documents' depths. -/
theorem Summarizes.isGreatest_fieldDepth {field : FieldNode} {nodes : List Node}
    (hsummary : Summarizes field nodes) (hnodes : nodes ≠ []) :
    IsGreatest {depth | ∃ node ∈ nodes, shapeDepth (shapeOf node) = depth} (fieldDepth field) := by
  have hbound := Summarizes.fieldDepth_le_iff hsummary hnodes
  have hupper := (hbound (fieldDepth field)).mp le_rfl
  constructor
  · by_contra hnone
    have hlt : ∀ node ∈ nodes, shapeDepth (shapeOf node) ≤ fieldDepth field - 1 := by
      intro node hnode
      have hne : shapeDepth (shapeOf node) ≠ fieldDepth field :=
        fun heq ↦ hnone ⟨node, hnode, heq⟩
      have hle := hupper node hnode
      omega
    have hle := (hbound _).mpr hlt
    have hpos : 1 ≤ fieldDepth field := by
      rw [fieldDepth_eq]
      omega
    omega
  · rintro depth ⟨node, hnode, rfl⟩
    exact hupper node hnode

/-! ## The keys of a profile -/

theorem isSome_lookup_iff {V : Type} {map : List (String × V)} {key : String} :
    (map.lookup key).isSome ↔ key ∈ map.map Prod.fst := by
  simp [List.lookup_isSome_iff]

theorem mem_topKeysSorted_iff (node : Node) (key : String) :
    key ∈ (summarize (shapeOf node)).topKeysSorted ↔ (node.valueAt key).isSome := by
  cases node with
  | object fields =>
      have hvalue : (collectMap (fieldShapesOf fields)).lookup key =
          ((Node.object fields).valueAt key).map shapeOf :=
        valueAt_shapeOf key (.object fields)
      rw [shapeOf, summarize, ← isSome_lookup_iff, hvalue, Option.isSome_map]
  | _ => simp [shapeOf, summarize, Node.valueAt]

theorem SummarizesPart.isSome_iff {part : Option FieldNode} {nodes : List Node}
    (hpart : SummarizesPart part nodes) : part.isSome ↔ ∃ node, node ∈ nodes := by
  cases hpart with
  | none => simp
  | some nonempty summary => simpa using List.exists_mem_of_ne_nil nodes nonempty

/-- The keys of a field are those of the objects it stands for. -/
theorem Summarizes.mem_keys_iff {field : FieldNode} {nodes : List Node}
    (hsummary : Summarizes field nodes) (key : String) :
    key ∈ field.children.map Prod.fst ↔
      ∃ node ∈ nodes, key ∈ (summarize (shapeOf node)).topKeysSorted := by
  cases hsummary with
  | intro _ _ _ children _ =>
      rw [← isSome_lookup_iff, SummarizesPart.isSome_iff (children key)]
      simp only [valuesAt, List.mem_filterMap, mem_topKeysSorted_iff, Option.isSome_iff_exists]
      exact ⟨fun ⟨value, node, hnode, hvalue⟩ ↦ ⟨node, hnode, value, hvalue⟩,
        fun ⟨node, hnode, value, hvalue⟩ ↦ ⟨value, node, hnode, hvalue⟩⟩

theorem sorted_topKeysSorted (node : Node) :
    (summarize (shapeOf node)).topKeysSorted.Pairwise (· < ·) ∧
      (summarize (shapeOf node)).topLevelFields =
        (summarize (shapeOf node)).topKeysSorted.length := by
  cases node with
  | object fields =>
      exact ⟨List.pairwise_map.mpr (sortedKeys_collectMap _), by simp [shapeOf, summarize]⟩
  | _ => simp [shapeOf, summarize]

theorem depth_summarize (shape : Shape) : (summarize shape).depth = shapeDepth shape := by
  cases shape <;> rfl

/-- The summary of a profile is fixed by the documents: the greatest depth, and all keys. -/
structure CoversDocuments (summary : ShapeSummary) (docs : List Node) : Prop where
  depth : IsGreatest {depth | ∃ doc ∈ docs, (summarize (shapeOf doc)).depth = depth} summary.depth
  keys : ∀ key, key ∈ summary.topKeysSorted ↔
    ∃ doc ∈ docs, key ∈ (summarize (shapeOf doc)).topKeysSorted
  sorted : summary.topKeysSorted.Pairwise (· < ·)
  fields : summary.topLevelFields = summary.topKeysSorted.length

theorem covers_generalizedShapeSummary {docs : List Node} (hdocs : docs ≠ []) :
    CoversDocuments (generalizedShapeSummary (profileOf docs)) docs := by
  have hsummary := (profileOf_summarizes docs).2
  constructor
  · simp only [depth_summarize]
    exact Summarizes.isGreatest_fieldDepth hsummary hdocs
  · exact Summarizes.mem_keys_iff hsummary
  · cases hsummary with
    | intro _ _ sorted _ _ => exact List.pairwise_map.mpr sorted
  · simp [generalizedShapeSummary]

theorem covers_summarize (doc : Node) : CoversDocuments (summarize (shapeOf doc)) [doc] := by
  refine ⟨?_, by simp, (sorted_topKeysSorted doc).1, (sorted_topKeysSorted doc).2⟩
  simp [isGreatest_singleton]

theorem CoversDocuments.unique {left right : ShapeSummary} {docs : List Node}
    (hleft : CoversDocuments left docs) (hright : CoversDocuments right docs) : left = right := by
  have hdepth := hleft.depth.unique hright.depth
  have hkeys : left.topKeysSorted = right.topKeysSorted :=
    hleft.sorted.eq_of_mem_iff hright.sorted fun key ↦
      (hleft.keys key).trans (hright.keys key).symm
  have hfields : left.topLevelFields = right.topLevelFields := by
    rw [hleft.fields, hright.fields, hkeys]
  rcases left with ⟨fields, depth, keys⟩
  rcases right with ⟨fields', depth', keys'⟩
  exact ShapeSummary.mk.injEq .. ▸ ⟨hfields, hdepth, hkeys⟩

/-- Merging documents in any grouping and any order gives one summary, with the greatest depth and
all keys of the documents' own; a single document keeps its summary and its bucket. -/
theorem generalizedShapeSummary_agrees (sha256 : Bytes → Digest) {docs : List Node}
    (hdocs : docs ≠ []) :
    CoversDocuments (generalizedShapeSummary (profileOf docs)) docs ∧
      (∀ tree : MergeTree Node, tree.values = docs →
        generalizedShapeSummary (profileOfTree tree) = generalizedShapeSummary (profileOf docs)) ∧
      ∀ doc, docs = [doc] →
        generalizedShapeSummary (profileOf docs) = summarize (shapeOf doc) ∧
          bucketKey sha256 (generalizedShapeSummary (profileOf docs)) =
            bucketKey sha256 (summarize (shapeOf doc)) := by
  refine ⟨covers_generalizedShapeSummary hdocs, fun tree htree ↦ ?_, ?_⟩
  · rw [profileOf_eq_tree htree]
  · rintro doc rfl
    have hsummary := (covers_generalizedShapeSummary hdocs).unique (covers_summarize doc)
    exact ⟨hsummary, by rw [hsummary]⟩

theorem generalizedShapeSummary_agrees_sample :
    generalizedShapeSummary (profileOf [.object [("a", .array [.null] false), ("b", .null)]]) =
      ⟨2, 3, ["a", "b"]⟩ :=
  ((generalizedShapeSummary_agrees sampleSha256 (List.cons_ne_nil _ [])).2.2 _ rfl).1

end Deblob.Cold
