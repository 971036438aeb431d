import Deblob.Monoid.Profile
import Deblob.Fingerprint.Shape

/-!
# Profiles as summaries of the nodes at a position

A position of a merged profile stands for all nodes the documents have there: the values of a key in
the objects, or the elements of the arrays. `Summarizes` says that a field's counters, children and
element agree with these nodes; it holds of one document and is kept by a merge.
-/

namespace Deblob.Monoid

open Core Lib Fingerprint

/-! ## The nodes at a position -/

def countRank (rank : ℕ) (nodes : List Node) : ℕ := nodes.countP fun node ↦ node.rank = rank

def typeCounts (nodes : List Node) : TypeCounts where
  null := countRank 0 nodes
  bool := countRank 1 nodes
  number := countRank 2 nodes
  string := countRank 3 nodes
  array := countRank 4 nodes
  object := countRank 5 nodes

def valuesAt (key : String) (nodes : List Node) : List Node := nodes.filterMap (Node.valueAt key)

def itemsOf (nodes : List Node) : List Node := nodes.flatMap Node.items

theorem typeCounts_append (left right : List Node) :
    typeCounts (left ++ right) = (typeCounts left).merge (typeCounts right) := by
  simp [typeCounts, countRank, TypeCounts.merge]

theorem valuesAt_append (key : String) (left right : List Node) :
    valuesAt key (left ++ right) = valuesAt key left ++ valuesAt key right :=
  List.filterMap_append

theorem itemsOf_append (left right : List Node) :
    itemsOf (left ++ right) = itemsOf left ++ itemsOf right :=
  List.flatMap_append

/-! ## Summaries -/

mutual

/-- The statistics of `field` are those of `nodes`. -/
inductive Summarizes : FieldNode → List Node → Prop
  | intro {field : FieldNode} {nodes : List Node}
      (present : field.present = nodes.length)
      (types : field.types = typeCounts nodes)
      (sorted : SortedKeys field.children)
      (children : ∀ key, SummarizesPart (field.children.lookup key) (valuesAt key nodes))
      (elem : SummarizesPart field.arrayElem (itemsOf nodes)) :
      Summarizes field nodes

/-- A part of a field is missing exactly if it stands for no nodes. -/
inductive SummarizesPart : Option FieldNode → List Node → Prop
  | none : SummarizesPart none []
  | some {field : FieldNode} {nodes : List Node} (nonempty : nodes ≠ [])
      (summary : Summarizes field nodes) : SummarizesPart (some field) nodes

end

theorem sortedKeys_mergeChildren {out children : List (String × FieldNode)}
    (hout : SortedKeys out) : SortedKeys (mergeChildren out children) := by
  induction children generalizing out with
  | nil => exact hout
  | cons entry children ih => exact ih (sortedKeys_insertWith hout _ _ _)

theorem lookup_mergeChildren {out children : List (String × FieldNode)} (hout : SortedKeys out)
    (hchildren : SortedKeys children) (key : String) :
    (mergeChildren out children).lookup key =
      mergeArrayElem (out.lookup key) (children.lookup key) := by
  induction children generalizing out with
  | nil => rfl
  | cons entry children ih =>
      obtain ⟨hhead, htail⟩ := List.pairwise_cons.mp hchildren
      rw [mergeChildren, ih (sortedKeys_insertWith hout _ _ _) htail, lookup_insertWith hout,
        lookup_cons_eq]
      split_ifs with hkey
      · rw [hkey, lookup_eq_none_of_lt hhead]
        rfl
      · rfl

mutual

/-- Merging keeps summaries. -/
theorem Summarizes.merge : {left right : FieldNode} → {leftNodes nodes : List Node} →
    Summarizes left leftNodes → Summarizes right nodes →
      Summarizes (left.merge right) (leftNodes ++ nodes)
  | _, _, leftNodes, nodes, .intro leftPresent leftTypes leftSorted leftChildren leftElem,
      .intro present types sorted children elem => by
    refine .intro ?_ ?_ ?_ (fun key ↦ ?_) ?_
    · rw [merge_present, leftPresent, present, List.length_append]
    · rw [merge_types, leftTypes, types, typeCounts_append]
    · rw [merge_children]
      exact sortedKeys_mergeChildren leftSorted
    · rw [merge_children, lookup_mergeChildren leftSorted sorted, valuesAt_append]
      exact (leftChildren key).merge (children key)
    · rw [merge_arrayElem, itemsOf_append]
      exact leftElem.merge elem

theorem SummarizesPart.merge : {left right : Option FieldNode} → {leftNodes nodes : List Node} →
    SummarizesPart left leftNodes → SummarizesPart right nodes →
      SummarizesPart (mergeArrayElem left right) (leftNodes ++ nodes)
  | _, _, _, _, hleft, .none => by
    rw [List.append_nil]
    exact hleft
  | _, _, _, _, .none, .some nonempty summary => .some nonempty summary
  | _, _, _, _, .some leftNonempty leftSummary, .some _ summary =>
    .some (List.append_ne_nil_of_left_ne_nil leftNonempty _) (leftSummary.merge summary)

end

/-- Merging the statistics of nodes one by one. -/
theorem mergeAll_summarizes {nodes : List Node}
    (hnodes : ∀ node ∈ nodes, Summarizes (.fromNode node) [node]) :
    SummarizesPart (mergeAll (nodes.map FieldNode.fromNode)) nodes := by
  induction nodes using List.reverseRecOn with
  | nil => exact .none
  | append_singleton nodes node ih =>
      have hlast : SummarizesPart (some (.fromNode node)) [node] :=
        .some (List.cons_ne_nil _ _) (hnodes node (by simp))
      have hstep : mergeAll ((nodes ++ [node]).map FieldNode.fromNode) =
          mergeArrayElem (mergeAll (nodes.map FieldNode.fromNode)) (some (.fromNode node)) := by
        unfold mergeAll
        rw [List.map_append, List.foldl_append]
        rfl
      rw [hstep]
      exact (ih fun node hnode ↦ hnodes node (List.mem_append_left _ hnode)).merge hlast

theorem fromNodes_eq (nodes : List Node) :
    FieldNode.fromNodes nodes = nodes.map FieldNode.fromNode := by
  induction nodes with
  | nil => rfl
  | cons node nodes ih => rw [FieldNode.fromNodes, ih, List.map_cons]

theorem fromFields_eq (fields : List (String × Node)) :
    FieldNode.fromFields fields = fields.map fun field ↦ (field.1, .fromNode field.2) := by
  induction fields with
  | nil => rfl
  | cons field fields ih => rw [FieldNode.fromFields, ih, List.map_cons]

theorem fromNode_scalar {node : Node} {field : FieldNode} (hpresent : field.present = 1)
    (htypes : field.types = typeCounts [node]) (hchildren : field.children = [])
    (helem : field.arrayElem = none) (hvalues : ∀ key, node.valueAt key = none)
    (hitems : node.items = []) : Summarizes field [node] := by
  refine .intro hpresent htypes ?_ (fun key ↦ ?_) ?_
  · rw [hchildren]
    exact List.Pairwise.nil
  · rw [hchildren, show valuesAt key [node] = [] by simp [valuesAt, hvalues key]]
    exact .none
  · rw [helem, show itemsOf [node] = [] by simp [itemsOf, hitems]]
    exact .none

mutual

/-- The statistics of one node summarize it. -/
theorem fromNode_summarizes : (node : Node) → Summarizes (.fromNode node) [node]
  | .null | .bool _ | .number _ | .string _ =>
    fromNode_scalar rfl rfl rfl rfl (fun _ ↦ rfl) rfl
  | .array items truncated => by
    have hitems : SummarizesPart (mergeAll (FieldNode.fromNodes items)) items := by
      rw [fromNodes_eq]
      exact mergeAll_summarizes (items_summarize items)
    refine .intro rfl rfl List.Pairwise.nil (fun key ↦ .none) ?_
    rw [show itemsOf [.array items truncated] = items by simp [itemsOf, Node.items]]
    exact hitems
  | .object fields => by
    refine .intro rfl rfl (sortedKeys_collectMap _) (fun key ↦ ?_) .none
    change SummarizesPart ((collectMap (FieldNode.fromFields fields)).lookup key) _
    rw [lookup_collectMap, fromFields_eq, ← List.map_reverse, lookup_mapValues]
    cases hlookup : fields.reverse.lookup key with
    | none =>
        rw [show valuesAt key [.object fields] = [] by simp [valuesAt, Node.valueAt, hlookup]]
        exact .none
    | some value =>
        rw [show valuesAt key [.object fields] = [value] by
          simp [valuesAt, Node.valueAt, hlookup]]
        obtain ⟨earlier, later, hfields, -⟩ := List.lookup_eq_some_iff.mp hlookup
        have hmem : (key, value) ∈ fields := by
          rw [← List.mem_reverse, hfields]
          exact List.mem_append_right _ List.mem_cons_self
        exact .some (List.cons_ne_nil _ _) (fields_summarize fields (key, value) hmem)

theorem items_summarize :
    (items : List Node) → ∀ item ∈ items, Summarizes (.fromNode item) [item]
  | [] => by simp
  | item :: items => List.forall_mem_cons.mpr ⟨fromNode_summarizes item, items_summarize items⟩

theorem fields_summarize :
    (fields : List (String × Node)) → ∀ field ∈ fields, Summarizes (.fromNode field.2) [field.2]
  | [] => by simp
  | (_, value) :: fields =>
    List.forall_mem_cons.mpr ⟨fromNode_summarizes value, fields_summarize fields⟩

end

theorem identity_summarizes : Summarizes .identity [] :=
  .intro rfl rfl List.Pairwise.nil (fun _ ↦ .none) .none

theorem profileOf_concat (docs : List Node) (doc : Node) : profileOf (docs ++ [doc]) =
    if docs = [] then .fromNode doc else (profileOf docs).merge (.fromNode doc) := by
  cases docs with
  | nil => rfl
  | cons first docs =>
      rw [if_neg (List.cons_ne_nil _ _)]
      show List.foldl _ _ (docs ++ [doc]) = _
      rw [List.foldl_append]
      rfl

/-- The merged profile of a sequence counts and summarizes its documents. -/
theorem profileOf_summarizes (docs : List Node) :
    (profileOf docs).count = docs.length ∧ Summarizes (profileOf docs).root docs := by
  induction docs using List.reverseRecOn with
  | nil => exact ⟨rfl, identity_summarizes⟩
  | append_singleton docs last ih =>
      rw [profileOf_concat]
      split_ifs with hempty
      · rw [hempty]
        exact ⟨rfl, fromNode_summarizes last⟩
      · refine ⟨?_, ih.2.merge (fromNode_summarizes last)⟩
        change (profileOf docs).count + 1 = _
        rw [ih.1, List.length_append, List.length_singleton]

end Deblob.Monoid
