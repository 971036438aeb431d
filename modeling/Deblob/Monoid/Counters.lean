import Deblob.Monoid.Generalized
import Deblob.Monoid.Laws

/-!
# Counters of merged profiles

At every position of a profile the counters of the types add up to the presence, the explicit nulls
are the nulls, and no member is present more often than there are objects. One document has such
counters and merging keeps them, also where only one side knows a member. In the generalized JSON
the flag of a member therefore tells whether some object at the position lacked it.
-/

namespace Deblob.Monoid

open Core Lib Fingerprint

/-! ## Consistent counters -/

def TypeCounts.total (types : TypeCounts) : ℕ :=
  types.null + types.bool + types.number + types.string + types.array + types.object

theorem TypeCounts.total_merge (left right : TypeCounts) :
    (left.merge right).total = left.total + right.total := by
  simp only [TypeCounts.total, TypeCounts.merge]
  omega

/-- The counters of the field and of all fields below it agree. -/
inductive FieldNode.Consistent : FieldNode → Prop
  | intro {field : FieldNode} (keys : SortedKeys field.children)
      (total : field.types.total = field.present)
      (explicitNull : field.explicitNull = field.types.null)
      (bounded : ∀ child ∈ field.children, child.2.present ≤ field.types.object)
      (children : ∀ child ∈ field.children, child.2.Consistent)
      (elem : ∀ elem ∈ field.arrayElem, elem.Consistent) : field.Consistent

theorem consistent_identity : FieldNode.identity.Consistent :=
  .intro List.Pairwise.nil rfl rfl (fun _ hchild ↦ nomatch hchild)
    (fun _ hchild ↦ nomatch hchild) (fun _ helem ↦ nomatch helem)

/-- A merged part comes from one side or from both. -/
theorem mem_mergeArrayElem {left right : Option FieldNode} {field : FieldNode}
    (hfield : field ∈ mergeArrayElem left right) :
    field ∈ left ∨ field ∈ right ∨ ∃ first ∈ left, ∃ second ∈ right, field = first.merge second := by
  cases right with
  | none => exact .inl hfield
  | some second =>
      cases left with
      | none => exact .inr (.inl hfield)
      | some first =>
          exact .inr (.inr ⟨first, rfl, second, rfl, (Option.mem_some_iff.mp hfield).symm⟩)

theorem mem_mergeChildren {left right : List (String × FieldNode)} (hleft : SortedKeys left)
    (hright : SortedKeys right) {key : String} {field : FieldNode}
    (hfield : (key, field) ∈ mergeChildren left right) :
    (key, field) ∈ left ∨ (key, field) ∈ right ∨
      ∃ first, (key, first) ∈ left ∧ ∃ second, (key, second) ∈ right ∧
        field = first.merge second := by
  rw [(sortedKeys_mergeChildren hleft).mem_iff, lookup_mergeChildren hleft hright] at hfield
  rcases mem_mergeArrayElem hfield with hfirst | hsecond | ⟨first, hfirst, second, hsecond, hmerge⟩
  · exact .inl (hleft.mem_iff.mpr hfirst)
  · exact .inr (.inl (hright.mem_iff.mpr hsecond))
  · exact .inr (.inr ⟨first, hleft.mem_iff.mpr hfirst, second, hright.mem_iff.mpr hsecond, hmerge⟩)

/-- Merging keeps the counters consistent. -/
theorem FieldNode.Consistent.merge {left right : FieldNode} (hleft : left.Consistent)
    (hright : right.Consistent) : (left.merge right).Consistent := by
  induction hleft generalizing right with
  | @intro left leftKeys leftTotal leftNull leftBounded leftChildren leftElem ihChildren ihElem =>
      cases hright with
      | intro keys total explicitNull bounded children elem =>
          apply FieldNode.Consistent.intro
          · rw [merge_children]
            exact sortedKeys_mergeChildren leftKeys
          · rw [merge_types, TypeCounts.total_merge, merge_present, leftTotal, total]
          · rw [merge_explicitNull, merge_types, leftNull, explicitNull]
            rfl
          · rintro ⟨key, child⟩ hchild
            have hobject : (left.merge right).types.object =
                left.types.object + right.types.object := by
              rw [merge_types]
              rfl
            rw [merge_children] at hchild
            rw [hobject]
            rcases mem_mergeChildren leftKeys keys hchild with
              hfirst | hsecond | ⟨first, hfirst, second, hsecond, rfl⟩
            · exact (leftBounded _ hfirst).trans (Nat.le_add_right _ _)
            · exact (bounded _ hsecond).trans (Nat.le_add_left _ _)
            · rw [merge_present]
              exact Nat.add_le_add (leftBounded _ hfirst) (bounded _ hsecond)
          · rintro ⟨key, child⟩ hchild
            rw [merge_children] at hchild
            rcases mem_mergeChildren leftKeys keys hchild with
              hfirst | hsecond | ⟨first, hfirst, second, hsecond, rfl⟩
            · exact leftChildren _ hfirst
            · exact children _ hsecond
            · exact ihChildren _ hfirst (children _ hsecond)
          · intro child hchild
            rw [merge_arrayElem] at hchild
            rcases mem_mergeArrayElem hchild with
              hfirst | hsecond | ⟨first, hfirst, second, hsecond, rfl⟩
            · exact leftElem child hfirst
            · exact elem child hsecond
            · exact ihElem first hfirst (elem second hsecond)

theorem consistent_mergeAll {nodes : List FieldNode} (hnodes : ∀ node ∈ nodes, node.Consistent) :
    ∀ merged ∈ mergeAll nodes, merged.Consistent := by
  induction nodes using List.reverseRecOn with
  | nil => exact fun _ hmerged ↦ nomatch hmerged
  | append_singleton nodes last ih =>
      have hstep : mergeAll (nodes ++ [last]) = mergeArrayElem (mergeAll nodes) (some last) := by
        unfold mergeAll
        rw [List.foldl_append]
        rfl
      have hnodes' := ih fun node hnode ↦ hnodes node (List.mem_append_left _ hnode)
      have hlast : last.Consistent := hnodes last (by simp)
      intro merged hmerged
      rw [hstep] at hmerged
      rcases mem_mergeArrayElem hmerged with
        hfirst | hsecond | ⟨first, hfirst, second, hsecond, rfl⟩
      · exact hnodes' merged hfirst
      · exact Option.mem_some_iff.mp hsecond ▸ hlast
      · exact (hnodes' first hfirst).merge (Option.mem_some_iff.mp hsecond ▸ hlast)

theorem present_fromNode (node : Node) : (FieldNode.fromNode node).present = 1 := by
  cases node <;> rfl

mutual

/-- The counters of one document are consistent. -/
theorem consistent_fromNode : (node : Node) → (FieldNode.fromNode node).Consistent
  | .null | .bool _ | .number _ | .string _ =>
    .intro List.Pairwise.nil rfl rfl (fun _ hchild ↦ nomatch hchild)
      (fun _ hchild ↦ nomatch hchild) (fun _ helem ↦ nomatch helem)
  | .array items truncated => by
    have hitems : ∀ merged ∈ mergeAll (FieldNode.fromNodes items), merged.Consistent := by
      rw [fromNodes_eq]
      apply consistent_mergeAll
      intro node hnode
      rcases List.mem_map.mp hnode with ⟨item, hitem, rfl⟩
      exact consistent_items items item hitem
    exact .intro List.Pairwise.nil rfl rfl (fun _ hchild ↦ nomatch hchild)
      (fun _ hchild ↦ nomatch hchild) hitems
  | .object fields => by
    have hchildren : ∀ child ∈ collectMap (FieldNode.fromFields fields),
        ∃ field ∈ fields, child.2 = .fromNode field.2 := by
      intro child hchild
      have hmem := mem_of_mem_collectMap hchild
      rw [fromFields_eq, List.mem_map] at hmem
      rcases hmem with ⟨field, hfield, rfl⟩
      exact ⟨field, hfield, rfl⟩
    refine .intro (sortedKeys_collectMap _) rfl rfl (fun child hchild ↦ ?_)
      (fun child hchild ↦ ?_) (fun _ helem ↦ nomatch helem)
    · rcases hchildren child hchild with ⟨field, -, hvalue⟩
      rw [hvalue, present_fromNode]
      rfl
    · rcases hchildren child hchild with ⟨field, hfield, hvalue⟩
      rw [hvalue]
      exact consistent_fields fields field hfield

theorem consistent_items :
    (items : List Node) → ∀ item ∈ items, (FieldNode.fromNode item).Consistent
  | [] => by simp
  | item :: items => List.forall_mem_cons.mpr ⟨consistent_fromNode item, consistent_items items⟩

theorem consistent_fields : (fields : List (String × Node)) →
    ∀ field ∈ fields, (FieldNode.fromNode field.2).Consistent
  | [] => by simp
  | (_, value) :: fields =>
    List.forall_mem_cons.mpr ⟨consistent_fromNode value, consistent_fields fields⟩

end

/-- The counters of a whole profile. -/
structure Profile.Consistent (profile : Profile) : Prop where
  count : profile.count = profile.root.present
  root : profile.root.Consistent

/-- Whatever the order and the grouping of the merges. -/
theorem consistent_profileOfTree (tree : MergeTree Node) : (profileOfTree tree).Consistent := by
  induction tree with
  | empty => exact ⟨rfl, consistent_identity⟩
  | leaf doc => exact ⟨(present_fromNode doc).symm, consistent_fromNode doc⟩
  | node left right ihLeft ihRight =>
      constructor
      · calc (profileOfTree (.node left right)).count
            = (profileOfTree left).count + (profileOfTree right).count := rfl
          _ = (profileOfTree left).root.present + (profileOfTree right).root.present := by
            rw [ihLeft.count, ihRight.count]
          _ = (profileOfTree (.node left right)).root.present := (merge_present _ _).symm
      · exact ihLeft.root.merge ihRight.root

/-! ## Optional members -/

/-- The position below a view. -/
def viewAt : List Step → View → Option View
  | [], view => some view
  | .key name :: path, view => (view.children.lookup name).bind (viewAt path)
  | .elem :: path, view => view.elem.bind (viewAt path)

theorem viewAt_append (path below : List Step) (view : View) :
    viewAt (path ++ below) view = (viewAt path view).bind (viewAt below) := by
  induction path generalizing view with
  | nil => rfl
  | cons step path ih =>
      cases step with
      | key name =>
          change (view.children.lookup name).bind (viewAt (path ++ below)) = _
          rw [funext ih]
          exact (Option.bind_assoc _ _ _).symm
      | elem =>
          change view.elem.bind (viewAt (path ++ below)) = _
          rw [funext ih]
          exact (Option.bind_assoc _ _ _).symm

theorem children_view (field : FieldNode) (denom : ℕ) (name : String) :
    (field.view denom).children.lookup name =
      (field.children.lookup name).map (FieldNode.view field.types.object) := by
  rw [view_eq]
  exact lookup_mapValues _ _ _

theorem elem_view (field : FieldNode) (denom : ℕ) :
    (field.view denom).elem = field.arrayElem.map (FieldNode.view field.types.array) := by
  rw [view_eq]

theorem summary_of_part {part : Option FieldNode} {nodes : List Node} {field : FieldNode}
    (hpart : SummarizesPart part nodes) (hfield : part = some field) : Summarizes field nodes := by
  cases hpart with
  | none => cases hfield
  | some _ summary => exact Option.some.inj hfield ▸ summary

/-- Every position of a view is that of a field which summarizes the nodes there. -/
theorem Summarizes.viewAt {field : FieldNode} {nodes : List Node} (hsummary : Summarizes field nodes)
    (denom : ℕ) {path : List Step} {view : View}
    (hview : Monoid.viewAt path (field.view denom) = some view) :
    ∃ below belowDenom, view = below.view belowDenom ∧ Summarizes below (nodesAt path nodes) := by
  induction path generalizing field nodes denom with
  | nil => exact ⟨field, denom, (Option.some.inj hview).symm, hsummary⟩
  | cons step path ih =>
      cases hsummary with
      | intro present types sorted children elem =>
          cases step with
          | key name =>
              rw [Monoid.viewAt, children_view, Option.bind_eq_some_iff] at hview
              rcases hview with ⟨childView, hchild, hbelow⟩
              rcases Option.map_eq_some_iff.mp hchild with ⟨child, hlookup, rfl⟩
              exact ih (summary_of_part (children name) hlookup) _ hbelow
          | elem =>
              rw [Monoid.viewAt, elem_view, Option.bind_eq_some_iff] at hview
              rcases hview with ⟨elemView, helem, hbelow⟩
              rcases Option.map_eq_some_iff.mp helem with ⟨found, hfound, rfl⟩
              exact ih (summary_of_part elem hfound) _ hbelow

theorem optional_view (field : FieldNode) (denom : ℕ) :
    (field.view denom).optional = decide (field.present < denom) := by
  rw [view_eq]

/-- A member is rendered as optional exactly if some object at its position lacked it. -/
theorem Summarizes.optional_iff {field : FieldNode} {nodes : List Node}
    (hsummary : Summarizes field nodes) {denom : ℕ} {path : List Step} {name : String} {child : View}
    (hchild : Monoid.viewAt (path ++ [.key name]) (field.view denom) = some child) :
    child.optional = true ↔
      ∃ node ∈ nodesAt path nodes, node.rank = 5 ∧ node.valueAt name = none := by
  rw [viewAt_append, Option.bind_eq_some_iff] at hchild
  rcases hchild with ⟨outer, houter, hmember⟩
  rcases hsummary.viewAt denom houter with ⟨below, belowDenom, rfl, hbelow⟩
  rw [Monoid.viewAt, children_view] at hmember
  rcases Option.bind_eq_some_iff.mp hmember with ⟨memberView, hlookup, hself⟩
  rcases Option.map_eq_some_iff.mp hlookup with ⟨member, hfound, rfl⟩
  obtain rfl := Option.some.inj hself
  cases hbelow with
  | intro present types sorted children elem =>
      cases summary_of_part (children name) hfound with
      | intro memberPresent _ _ _ _ =>
          rw [optional_view, decide_eq_true_eq, memberPresent, types]
          exact length_valuesAt_lt_object

theorem nodesAt_nil (path : List Step) : nodesAt path [] = [] := by
  induction path with
  | nil => rfl
  | cons step path ih =>
      cases step with
      | key name => exact ih
      | elem => exact ih

/-- A part's positions are those at which it stands for some node. -/
theorem viewAt_part_eq_none {part : Option FieldNode} {nodes : List Node}
    (hpart : SummarizesPart part nodes) (denom : ℕ) (path : List Step) :
    (part.map (FieldNode.view denom)).bind (viewAt path) = none ↔
      nodesAt path nodes = [] := by
  induction path generalizing part nodes denom with
  | nil =>
      cases hpart with
      | none => exact iff_of_true rfl rfl
      | some nonempty _ => exact iff_of_false (Option.some_ne_none _) nonempty
  | cons step path ih =>
      cases hpart with
      | none => exact iff_of_true rfl (nodesAt_nil _)
      | some nonempty summary =>
          cases summary with
          | intro present types sorted children elem =>
              rw [Option.map_some, Option.bind_some]
              cases step with
              | key name =>
                  rw [viewAt, children_view]
                  exact ih (children name) _
              | elem =>
                  rw [viewAt, elem_view]
                  exact ih elem _

/-- The rendered members of the positions are the observed ones. -/
theorem Summarizes.member_isSome {field : FieldNode} {nodes : List Node}
    (hsummary : Summarizes field nodes) (denom : ℕ) (path : List Step) (name : String) :
    (Monoid.viewAt (path ++ [.key name]) (field.view denom)).isSome ↔
      nodesAt (path ++ [.key name]) nodes ≠ [] := by
  cases nodes with
  | cons node nodes =>
      have hpart : SummarizesPart (some field) (node :: nodes) :=
        .some (List.cons_ne_nil _ _) hsummary
      rw [← Option.ne_none_iff_isSome]
      exact not_congr (viewAt_part_eq_none hpart denom _)
  | nil =>
      cases hsummary with
      | intro present types sorted children elem =>
          rw [← Option.ne_none_iff_isSome]
          apply not_congr
          cases path with
          | nil =>
              have hnone := viewAt_part_eq_none (children name) field.types.object []
              rwa [← children_view field denom] at hnone
          | cons step path =>
              cases step with
              | key other =>
                  have hnone := viewAt_part_eq_none (children other) field.types.object
                    (path ++ [.key name])
                  rwa [← children_view field denom] at hnone
              | elem =>
                  have hnone := viewAt_part_eq_none elem field.types.array (path ++ [.key name])
                  rwa [← elem_view field denom] at hnone

/-- In every profile merged from documents the counters are consistent at every position, and the
generalized JSON renders the observed members, as optional if some object at the position lacked
the key. -/
theorem profile_counters (tree : MergeTree Node) :
    (profileOfTree tree).Consistent ∧
      ∃ view, (profileOfTree tree).generalizedCanonicalJson = writeView view ∧
        ∀ path name,
          ((viewAt (path ++ [.key name]) view).isSome ↔
            nodesAt (path ++ [.key name]) tree.values.toList ≠ []) ∧
          ∀ child, viewAt (path ++ [.key name]) view = some child →
            (child.optional = true ↔ ∃ node ∈ nodesAt path tree.values.toList,
              node.rank = 5 ∧ node.valueAt name = none) := by
  have hprofile : profileOf tree.values.toList = profileOfTree tree :=
    profileOf_eq_tree (Multiset.coe_toList _).symm
  have hsummary := (profileOf_summarizes tree.values.toList).2
  rw [hprofile] at hsummary
  refine ⟨consistent_profileOfTree tree, _, writeGeneralizedField_eq _ _, fun path name ↦ ⟨?_, ?_⟩⟩
  · exact hsummary.member_isSome _ path name
  · exact fun child hchild ↦ hsummary.optional_iff hchild

end Deblob.Monoid
