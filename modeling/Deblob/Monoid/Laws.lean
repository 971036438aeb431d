import Deblob.Lib.MergeTree
import Deblob.Monoid.Observed

/-!
# Merging is a commutative monoid

The laws hold for profiles whose maps are sorted at every depth, as the source's maps are. The
children of a merged field are compared key by key, where a merge of children is a merge of two
optional fields, exactly like the merge of the array elements. The profile of a collection of
documents therefore depends neither on their order nor on the grouping of the merges.
-/

namespace Deblob.Monoid

open Core Lib Fingerprint

/-! ## Sorted fields -/

/-- The maps of the field and of the fields below it are sorted. -/
inductive FieldNode.Sorted : FieldNode → Prop
  | intro {field : FieldNode} (keys : SortedKeys field.children)
      (children : ∀ key, ∀ child ∈ field.children.lookup key, child.Sorted)
      (elem : ∀ child ∈ field.arrayElem, child.Sorted) : field.Sorted

theorem FieldNode.Sorted.keys {field : FieldNode} (hsorted : field.Sorted) :
    SortedKeys field.children := by
  cases hsorted
  assumption

theorem sorted_identity : FieldNode.identity.Sorted :=
  .intro List.Pairwise.nil (fun _ _ hchild ↦ nomatch hchild) (fun _ hchild ↦ nomatch hchild)

mutual

/-- A field that summarizes nodes is sorted. -/
theorem Summarizes.sorted : {field : FieldNode} → {nodes : List Node} →
    Summarizes field nodes → field.Sorted
  | _, _, .intro _ _ keys children elem =>
    .intro keys (fun key ↦ (children key).sorted) elem.sorted

theorem SummarizesPart.sorted : {part : Option FieldNode} → {nodes : List Node} →
    SummarizesPart part nodes → ∀ field ∈ part, field.Sorted
  | _, _, .none => fun _ hfield ↦ nomatch hfield
  | _, _, .some _ summary => fun _ hfield ↦ Option.mem_some_iff.mp hfield ▸ summary.sorted

end

theorem sorted_fromNode (node : Node) : (FieldNode.fromNode node).Sorted :=
  (fromNode_summarizes node).sorted

theorem sorted_mergeArrayElem {left right : Option FieldNode}
    (hleft : ∀ field ∈ left, field.Sorted) (hright : ∀ field ∈ right, field.Sorted)
    (hmerge : ∀ field ∈ left, ∀ other ∈ right, (field.merge other).Sorted) :
    ∀ field ∈ mergeArrayElem left right, field.Sorted := by
  cases right with
  | none => exact hleft
  | some other =>
      cases left with
      | none => exact hright
      | some field =>
          intro merged hmerged
          rw [← Option.mem_some_iff.mp hmerged]
          exact hmerge field rfl other rfl

/-- Merging keeps maps sorted. -/
theorem sorted_merge {left right : FieldNode} (hleft : left.Sorted) (hright : right.Sorted) :
    (left.merge right).Sorted := by
  induction hleft generalizing right with
  | @intro left leftKeys leftChildren leftElem ihChildren ihElem =>
      cases hright with
      | intro keys children elem =>
          apply FieldNode.Sorted.intro
          · rw [merge_children]
            exact sortedKeys_mergeChildren leftKeys
          · intro key
            rw [merge_children, lookup_mergeChildren leftKeys keys]
            apply sorted_mergeArrayElem (leftChildren key) (children key)
            intro field hfield other hother
            exact ihChildren key field hfield (children key other hother)
          · rw [merge_arrayElem]
            apply sorted_mergeArrayElem leftElem elem
            intro field hfield other hother
            exact ihElem field hfield (elem other hother)

/-! ## The laws of a field -/

/-- Two fields are equal if their statistics are, and their children key by key. -/
theorem FieldNode.ext_lookup {left right : FieldNode} (hleft : SortedKeys left.children)
    (hright : SortedKeys right.children) (present : left.present = right.present)
    (explicitNull : left.explicitNull = right.explicitNull) (types : left.types = right.types)
    (children : ∀ key, left.children.lookup key = right.children.lookup key)
    (arrayElem : left.arrayElem = right.arrayElem)
    (arrayEmptySeen : left.arrayEmptySeen = right.arrayEmptySeen)
    (arrayPartialSeen : left.arrayPartialSeen = right.arrayPartialSeen)
    (intOnly : left.intOnly = right.intOnly) (negZeroSeen : left.negZeroSeen = right.negZeroSeen)
    (numericBuckets : left.numericBuckets = right.numericBuckets) : left = right := by
  have hchildren := hleft.ext hright children
  cases left
  cases right
  simp_all

theorem TypeCounts.merge_comm (left right : TypeCounts) : left.merge right = right.merge left := by
  simp only [TypeCounts.merge, add_comm]

theorem TypeCounts.merge_assoc (left middle right : TypeCounts) :
    (left.merge middle).merge right = left.merge (middle.merge right) := by
  simp only [TypeCounts.merge, add_assoc]

theorem NumericBuckets.merge_comm (left right : NumericBuckets) :
    left.merge right = right.merge left := by
  simp only [NumericBuckets.merge, Bool.or_comm]

theorem NumericBuckets.merge_assoc (left middle right : NumericBuckets) :
    (left.merge middle).merge right = left.merge (middle.merge right) := by
  simp only [NumericBuckets.merge, Bool.or_assoc]

theorem mergeArrayElem_none_left (part : Option FieldNode) : mergeArrayElem none part = part := by
  cases part <;> rfl

theorem mergeArrayElem_comm {left right : Option FieldNode}
    (hmerge : ∀ field ∈ left, ∀ other ∈ right, field.merge other = other.merge field) :
    mergeArrayElem left right = mergeArrayElem right left := by
  cases left with
  | none => exact mergeArrayElem_none_left right
  | some field =>
      cases right with
      | none => rfl
      | some other => exact congrArg some (hmerge field rfl other rfl)

theorem mergeArrayElem_assoc {left middle right : Option FieldNode}
    (hmerge : ∀ field ∈ left, ∀ between ∈ middle, ∀ other ∈ right,
      (field.merge between).merge other = field.merge (between.merge other)) :
    mergeArrayElem (mergeArrayElem left middle) right =
      mergeArrayElem left (mergeArrayElem middle right) := by
  cases right with
  | none => rfl
  | some other =>
      cases middle with
      | none => rfl
      | some between =>
          cases left with
          | none => rfl
          | some field => exact congrArg some (hmerge field rfl between rfl other rfl)

theorem FieldNode.merge_comm {left right : FieldNode} (hleft : left.Sorted)
    (hright : right.Sorted) :
    left.merge right = right.merge left := by
  induction hleft generalizing right with
  | @intro left leftKeys leftChildren leftElem ihChildren ihElem =>
      cases hright with
      | intro keys children elem =>
          apply FieldNode.ext_lookup <;> simp only [merge_present, merge_explicitNull, merge_types,
            merge_children, merge_arrayElem, merge_arrayEmptySeen, merge_arrayPartialSeen,
            merge_intOnly, merge_negZeroSeen, merge_numericBuckets]
          · exact sortedKeys_mergeChildren leftKeys
          · exact sortedKeys_mergeChildren keys
          · exact Nat.add_comm _ _
          · exact Nat.add_comm _ _
          · exact TypeCounts.merge_comm _ _
          · intro key
            rw [lookup_mergeChildren leftKeys keys, lookup_mergeChildren keys leftKeys]
            apply mergeArrayElem_comm
            intro field hfield other hother
            exact ihChildren key field hfield (children key other hother)
          · apply mergeArrayElem_comm
            intro field hfield other hother
            exact ihElem field hfield (elem other hother)
          · exact Bool.or_comm _ _
          · exact Bool.or_comm _ _
          · exact Bool.and_comm _ _
          · exact Bool.or_comm _ _
          · exact NumericBuckets.merge_comm _ _

theorem FieldNode.merge_assoc {left middle right : FieldNode} (hleft : left.Sorted)
    (hmiddle : middle.Sorted) (hright : right.Sorted) :
    (left.merge middle).merge right = left.merge (middle.merge right) := by
  induction hleft generalizing middle right with
  | @intro left leftKeys leftChildren leftElem ihChildren ihElem =>
      cases hmiddle with
      | intro middleKeys middleChildren middleElem =>
          cases hright with
          | intro keys children elem =>
              apply FieldNode.ext_lookup <;> simp only [merge_present, merge_explicitNull,
                merge_types, merge_children, merge_arrayElem, merge_arrayEmptySeen,
                merge_arrayPartialSeen, merge_intOnly, merge_negZeroSeen, merge_numericBuckets]
              · exact sortedKeys_mergeChildren (sortedKeys_mergeChildren leftKeys)
              · exact sortedKeys_mergeChildren leftKeys
              · exact Nat.add_assoc _ _ _
              · exact Nat.add_assoc _ _ _
              · exact TypeCounts.merge_assoc _ _ _
              · intro key
                rw [lookup_mergeChildren (sortedKeys_mergeChildren leftKeys) keys,
                  lookup_mergeChildren leftKeys middleKeys,
                  lookup_mergeChildren leftKeys (sortedKeys_mergeChildren middleKeys),
                  lookup_mergeChildren middleKeys keys]
                apply mergeArrayElem_assoc
                intro field hfield between hbetween other hother
                exact ihChildren key field hfield (middleChildren key between hbetween)
                  (children key other hother)
              · apply mergeArrayElem_assoc
                intro field hfield between hbetween other hother
                exact ihElem field hfield (middleElem between hbetween) (elem other hother)
              · exact Bool.or_assoc _ _ _
              · exact Bool.or_assoc _ _ _
              · exact Bool.and_assoc _ _ _
              · exact Bool.or_assoc _ _ _
              · exact NumericBuckets.merge_assoc _ _ _

theorem FieldNode.merge_identity (field : FieldNode) : field.merge .identity = field := by
  cases field
  simp [FieldNode.identity, FieldNode.merge, mergeChildren, mergeArrayElem, TypeCounts.merge,
    TypeCounts.zero, NumericBuckets.merge, NumericBuckets.none]

/-! ## Profiles -/

/-- A profile whose maps are sorted. -/
def SortedProfile : Type := { profile : Profile // profile.root.Sorted }

namespace SortedProfile

theorem ext {left right : SortedProfile} (hcount : left.1.count = right.1.count)
    (hroot : left.1.root = right.1.root) : left = right := by
  apply Subtype.ext
  cases left with
  | mk left hleft =>
      cases right with
      | mk right hright =>
          cases left
          cases right
          exact congrArg₂ Profile.mk hcount hroot

def fromNode (doc : Node) : SortedProfile := ⟨.fromNode doc, sorted_fromNode doc⟩

instance : Zero SortedProfile := ⟨⟨.identity, sorted_identity⟩⟩

instance : Add SortedProfile :=
  ⟨fun left right ↦ ⟨left.1.merge right.1, sorted_merge left.2 right.2⟩⟩

theorem merge_identity (profile : SortedProfile) : profile + 0 = profile :=
  ext (Nat.add_zero _) (FieldNode.merge_identity _)

theorem merge_comm (left right : SortedProfile) : left + right = right + left :=
  ext (Nat.add_comm _ _) (FieldNode.merge_comm left.2 right.2)

theorem merge_assoc (left middle right : SortedProfile) :
    left + middle + right = left + (middle + right) :=
  ext (Nat.add_assoc _ _ _) (FieldNode.merge_assoc left.2 middle.2 right.2)

instance : AddCommMonoid SortedProfile where
  add_assoc := merge_assoc
  zero_add profile := (merge_comm 0 profile).trans (merge_identity profile)
  add_zero := merge_identity
  add_comm := merge_comm
  nsmul := nsmulRec

end SortedProfile

/-- The profile that merging documents in the grouping of a tree gives. -/
def profileOfTree : MergeTree Node → Profile
  | .empty => .identity
  | .leaf doc => .fromNode doc
  | .node left right => (profileOfTree left).merge (profileOfTree right)

theorem profileOfTree_eq (tree : MergeTree Node) :
    profileOfTree tree = (tree.merged SortedProfile.fromNode).1 := by
  induction tree with
  | empty => rfl
  | leaf doc => rfl
  | node left right ihLeft ihRight =>
      rw [profileOfTree, ihLeft, ihRight]
      rfl

theorem profileOfTree_congr {left right : MergeTree Node} (hvalues : left.values = right.values) :
    profileOfTree left = profileOfTree right := by
  rw [profileOfTree_eq, profileOfTree_eq, MergeTree.merged_congr _ hvalues]

/-- The incremental merge of a sequence is one of the groupings. -/
theorem profileOf_eq_sum (docs : List Node) :
    profileOf docs = (((docs : Multiset Node).map SortedProfile.fromNode).sum).1 := by
  cases docs with
  | nil => rfl
  | cons doc docs =>
      have hfold (start : SortedProfile) :
          docs.foldl (fun profile doc ↦ profile.merge (.fromNode doc)) start.1 =
            (docs.foldl (fun profile doc ↦ profile + SortedProfile.fromNode doc) start).1 := by
        induction docs generalizing start with
        | nil => rfl
        | cons doc docs ih => exact ih (start + SortedProfile.fromNode doc)
      calc profileOf (doc :: docs)
          = (docs.foldl (fun profile doc ↦ profile + SortedProfile.fromNode doc)
              (SortedProfile.fromNode doc)).1 := hfold (SortedProfile.fromNode doc)
        _ = (((doc :: docs : List Node) : Multiset Node).map SortedProfile.fromNode).sum.1 := by
          rw [MergeTree.foldl_eq_sum, ← Multiset.cons_coe, Multiset.map_cons, Multiset.sum_cons]

theorem profileOf_eq_tree {docs : List Node} {tree : MergeTree Node}
    (hvalues : tree.values = docs) : profileOf docs = profileOfTree tree := by
  rw [profileOf_eq_sum, profileOfTree_eq, MergeTree.merged_eq_sum, hvalues]

/-- Profiles form a commutative monoid under merging, and documents merged in any order and any
grouping have one profile, one generalized schema and one generalized fingerprint. -/
theorem profile_merge_monoid (sha256 : Bytes → Digest) :
    (∀ left middle right : SortedProfile,
      (left.1.merge middle.1).merge right.1 = left.1.merge (middle.1.merge right.1) ∧
        left.1.merge right.1 = right.1.merge left.1 ∧
        left.1.merge .identity = left.1 ∧ Profile.identity.merge left.1 = left.1) ∧
      ∀ (docs : List Node) (left right : MergeTree Node),
        left.values = docs → right.values = docs →
          profileOfTree left = profileOfTree right ∧ profileOf docs = profileOfTree left ∧
          (profileOfTree left).generalizedCanonicalJson =
            (profileOfTree right).generalizedCanonicalJson ∧
          (profileOfTree left).generalizedFingerprint sha256 =
            (profileOfTree right).generalizedFingerprint sha256 := by
  constructor
  · intro left middle right
    have hassoc := SortedProfile.merge_assoc left middle right
    have hcomm := SortedProfile.merge_comm left right
    have hright := SortedProfile.merge_identity left
    have hleft := zero_add left
    exact ⟨congrArg Subtype.val hassoc, congrArg Subtype.val hcomm, congrArg Subtype.val hright,
      congrArg Subtype.val hleft⟩
  · intro docs left right hleft hright
    have hprofile := profileOfTree_congr (hleft.trans hright.symm)
    exact ⟨hprofile, profileOf_eq_tree hleft, by rw [hprofile], by rw [hprofile]⟩

/-- Three documents with a field that is missing, null and fractional in turn. -/
def mergeSample : List Node :=
  [.object [("a", .number "1"), ("b", .array [] false)], .object [("b", .array [.null] false)],
    .object [("a", .number "-0.5"), ("b", .null)]]

theorem profile_merge_monoid_sample (sha256 : Bytes → Digest) :
    profileOf mergeSample = profileOfTree (.node (.leaf (.object [("b", .array [.null] false)]))
      (.node (.leaf (.object [("a", .number "-0.5"), ("b", .null)]))
        (.node .empty (.leaf (.object [("a", .number "1"), ("b", .array [] false)]))))) := by
  have hvalues : MergeTree.values
      (.node (.leaf (.object [("b", .array [.null] false)]))
        (.node (.leaf (.object [("a", .number "-0.5"), ("b", .null)]))
          (.node .empty (.leaf (.object [("a", .number "1"), ("b", .array [] false)]))))) =
        (mergeSample : Multiset Node) := by
    simp only [MergeTree.values, zero_add]
    exact Multiset.coe_eq_coe.mpr (@List.perm_append_comm _ mergeSample.tail (mergeSample.take 1))
  exact ((profile_merge_monoid sha256).2 mergeSample _ _ hvalues hvalues).2.1

end Deblob.Monoid
