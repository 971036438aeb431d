import Deblob.Cold.FieldGate
import Deblob.Cold.PromotedRecord
import Deblob.Lib.SortByKey
import Deblob.Umbrella.ConformingEvents
import Deblob.Umbrella.KeyTexts

/-!
# Joining child fields with value evidence

A child field reads its leaf from an event by its path, and its value evidence is the leaf profile
that is filed under the same text. Both find the leaf again as long as no key is empty or has a dot.
A key with a dot is read as two keys, a leaf with an empty key has evidence but no child field, and
neither has a leaf without a scalar type.
-/

namespace Deblob.Umbrella

open Core Lib Fingerprint Deblob.Monoid Semantic Redis

/-! ## What is asked of the paths -/

/-- Each path reads from every conforming event the value of the leaf it is derived from. -/
def PathsDenote (profile : Profile) (derived : List (List String × AnnotatedField)) : Prop :=
  ∀ event, conformsTo event (profile.root.view profile.count) →
    ∀ entry ∈ derived, event.get entry.2.path = event.getAt entry.1

/-- The paths are distinct, and each of them is the path of exactly one leaf profile. -/
structure PathsJoin (fields : List AnnotatedField) (leaves : List LeafValueProfile) : Prop where
  distinct : fields.Pairwise fun left right ↦ left.path ≠ right.path
  joined : ∀ field ∈ fields, ∃ leaf,
    leaves.filter (fun leaf ↦ leaf.path = leafPathOf field.path.toString) = [leaf]

/-- Every leaf profile is joined as well. -/
structure JoinOneToOne (fields : List AnnotatedField) (leaves : List LeafValueProfile) : Prop
    extends PathsJoin fields leaves where
  covered : ∀ leaf ∈ leaves, ∃ field ∈ fields, leafPathOf field.path.toString = leaf.path

/-! ## When it holds -/

/-- The leaf has a type and keys that make a path. -/
def HasChildField (leaf : List String × FieldNode) : Prop :=
  (leafScalarType (fieldTypes leaf.2) (elemTypes leaf.2)).isSome ∧ IsPathKey (joinKeys leaf.1)

/-- The keys of a child field have no dots, and no other leaf is filed under the same text. -/
def LeavesUnambiguous (root : FieldNode) : Prop :=
  ∀ leaf ∈ keyedLeaves root, HasChildField leaf →
    (∀ key ∈ leaf.1, '.' ∉ key.toList) ∧
      ∀ other ∈ keyedLeaves root, walkText other.1 = joinKeys leaf.1 → other.1 = leaf.1

/-- Every leaf that is filed at all has a type and plain keys. -/
def LeavesPlain (root : FieldNode) : Prop :=
  ∀ leaf ∈ keyedLeaves root, (∃ key ∈ leaf.1, key ≠ "") →
    IsPlain leaf.1 ∧ (leafScalarType (fieldTypes leaf.2) (elemTypes leaf.2)).isSome

/-! ## Fields and leaf profiles by their leaves -/

theorem leafField_eq_some {semantics : List (List String × FieldSemantics)}
    {types elemTypes keys : List String} {field : AnnotatedField}
    (hfield : leafField semantics types elemTypes keys = some field) :
    (leafScalarType types elemTypes).isSome ∧ IsPathKey (joinKeys keys) ∧
      field.path.segments = splitKeys (joinKeys keys) := by
  unfold leafField at hfield
  split_ifs at hfield with hkeys
  rcases Option.bind_eq_some_iff.mp hfield with ⟨ty, hty, hpath⟩
  rw [JsonPath.parse_append] at hpath
  by_cases hkey : IsPathKey (".".intercalate keys)
  · rw [if_pos hkey] at hpath
    cases hpath
    exact ⟨Option.isSome_of_mem hty, hkey, rfl⟩
  · rw [if_neg hkey] at hpath
    cases hpath

theorem exists_leafField (semantics : List (List String × FieldSemantics))
    {leaf : List String × FieldNode} (hleaf : HasChildField leaf) :
    ∃ field, leafField semantics (fieldTypes leaf.2) (elemTypes leaf.2) leaf.1 = some field := by
  rcases Option.isSome_iff_exists.mp hleaf.1 with ⟨ty, hty⟩
  have hkey : IsPathKey (".".intercalate leaf.1) := hleaf.2
  unfold leafField
  rw [if_neg (ne_nil_of_isPathKey hkey), hty, Option.bind_some, JsonPath.parse_append, if_pos hkey]
  exact ⟨_, rfl⟩

variable {profile : Profile}

/-- The child fields of the leaves with their keys. -/
def leafFields (semantics : List (List String × FieldSemantics)) (root : FieldNode) :
    List (List String × AnnotatedField) :=
  (keyedLeaves root).filterMap fun leaf ↦
    (leafField semantics (fieldTypes leaf.2) (elemTypes leaf.2) leaf.1).map fun field ↦
      (leaf.1, field)

theorem mem_leafFields {semantics : List (List String × FieldSemantics)} {root : FieldNode}
    {entry : List String × AnnotatedField} (hentry : entry ∈ leafFields semantics root) :
    ∃ leaf ∈ keyedLeaves root, leaf.1 = entry.1 ∧ HasChildField leaf ∧
      entry.2.path.segments = splitKeys (joinKeys leaf.1) := by
  rcases List.mem_filterMap.mp hentry with ⟨leaf, hleaf, hmap⟩
  rcases Option.map_eq_some_iff.mp hmap with ⟨field, hsome, rfl⟩
  rcases leafField_eq_some hsome with ⟨htype, hkey, hsegments⟩
  exact ⟨leaf, hleaf, rfl, ⟨htype, hkey⟩, hsegments⟩

theorem exists_mem_leafFields (semantics : List (List String × FieldSemantics)) {root : FieldNode}
    {leaf : List String × FieldNode} (hleaf : leaf ∈ keyedLeaves root)
    (hchild : HasChildField leaf) :
    ∃ field, (leaf.1, field) ∈ leafFields semantics root ∧
      field.path.segments = splitKeys (joinKeys leaf.1) := by
  rcases exists_leafField semantics hchild with ⟨field, hfield⟩
  refine ⟨field, List.mem_filterMap.mpr ⟨leaf, hleaf, ?_⟩, (leafField_eq_some hfield).2.2⟩
  rw [hfield]
  rfl

theorem mem_profileLeaves (hobserved : FieldNode.Observed profile.root) {found : LeafValueProfile} :
    found ∈ profileLeaves profile ↔
      ∃ leaf ∈ keyedLeaves profile.root, walkText leaf.1 ≠ "" ∧
        found = leafValueProfile (walkText leaf.1) leaf.2 := by
  rw [profileLeaves, walkValues_eq_filterMap hobserved, List.mem_filterMap]
  refine exists_congr fun leaf ↦ and_congr_right fun _ ↦ ?_
  change leafProfileAt (walkText leaf.1) leaf.2 = some found ↔ _
  rw [leafProfileAt]
  split_ifs with hempty
  · simp [hempty]
  · simp [hempty, eq_comm]

/-- A text joins one leaf profile exactly if the leaves filed under it have the same keys. -/
theorem joined_iff (hobserved : FieldNode.Observed profile.root) {text : String}
    (htext : text ≠ "") :
    (∃ found, (profileLeaves profile).filter (fun found ↦ found.path = text) = [found]) ↔
      ∃ leaf ∈ keyedLeaves profile.root, walkText leaf.1 = text ∧
        ∀ other ∈ keyedLeaves profile.root, walkText other.1 = text → other.1 = leaf.1 := by
  have hfilter : (profileLeaves profile).filter (fun found ↦ found.path = text) =
      ((keyedLeaves profile.root).filter fun leaf ↦ walkText leaf.1 = text).map fun leaf ↦
        leafValueProfile text leaf.2 := by
    rw [profileLeaves, walkValues_eq_filterMap hobserved, List.filter_filterMap,
      ← List.filterMap_eq_filter, List.map_filterMap]
    refine List.filterMap_congr fun leaf _ ↦ ?_
    change (leafProfileAt (walkText leaf.1) leaf.2).filter _ = _
    by_cases hleaf : walkText leaf.1 = text
    · rw [leafProfileAt, hleaf, if_neg htext]
      simp [Option.guard, leafValueProfile, hleaf]
    · rw [leafProfileAt]
      split_ifs with hempty
      · simp [Option.guard, hleaf]
      · simp [Option.guard, leafValueProfile, hleaf]
  have hselected := filter_eq_singleton_iff (fun leaf ↦ walkText leaf.1 = text)
    (keyedLeaves_pairwise hobserved)
  simp only [decide_eq_true_eq] at hselected
  rw [hfilter, ← hselected]
  constructor
  · rintro ⟨found, hfound⟩
    rcases List.map_eq_singleton_iff.mp hfound with ⟨leaf, hleaf, -⟩
    exact ⟨leaf, hleaf⟩
  · rintro ⟨leaf, hleaf⟩
    rw [hleaf]
    exact ⟨_, rfl⟩

/-! ## The join -/

section Join

variable {semantics : List (List String × FieldSemantics)}

theorem LeavesUnambiguous.splitKeys_eq {root : FieldNode} (hleaves : LeavesUnambiguous root)
    {leaf : List String × FieldNode} (hleaf : leaf ∈ keyedLeaves root)
    (hchild : HasChildField leaf) : splitKeys (joinKeys leaf.1) = leaf.1 :=
  splitKeys_joinKeys (ne_nil_of_isPathKey hchild.2) (hleaves leaf hleaf hchild).1

/-- Dots apart, the path of a child field is the one of its leaf. -/
theorem LeavesUnambiguous.denote (hleaves : LeavesUnambiguous profile.root) :
    PathsDenote profile (leafFields semantics profile.root) := by
  intro event _ entry hentry
  rcases mem_leafFields hentry with ⟨leaf, hleaf, hkeys, hchild, hsegments⟩
  rw [Value.get, hsegments, ← hkeys, hleaves.splitKeys_eq hleaf hchild]

theorem LeavesUnambiguous.join (hobserved : FieldNode.Observed profile.root)
    (hleaves : LeavesUnambiguous profile.root) :
    PathsJoin ((leafFields semantics profile.root).map Prod.snd) (profileLeaves profile) := by
  constructor
  · rw [List.pairwise_map, leafFields, List.pairwise_filterMap]
    refine (keyedLeaves_pairwise hobserved).imp_of_mem ?_
    intro left right hleft hright hne found hfound other hother heq
    rcases Option.map_eq_some_iff.mp hfound with ⟨first, hfirst, rfl⟩
    rcases Option.map_eq_some_iff.mp hother with ⟨second, hsecond, rfl⟩
    have hsplit {leaf : List String × FieldNode} (hleaf : leaf ∈ keyedLeaves profile.root)
        {field : AnnotatedField}
        (hfield : leafField semantics (fieldTypes leaf.2) (elemTypes leaf.2) leaf.1 = some field) :
        field.path.segments = leaf.1 := by
      rcases leafField_eq_some hfield with ⟨htype, hkey, hsegments⟩
      exact hsegments.trans (hleaves.splitKeys_eq hleaf ⟨htype, hkey⟩)
    apply hne
    calc left.1 = first.path.segments := (hsplit hleft hfirst).symm
      _ = second.path.segments := congrArg JsonPath.segments heq
      _ = right.1 := hsplit hright hsecond
  · intro field hfield
    rcases List.mem_map.mp hfield with ⟨entry, hentry, rfl⟩
    rcases mem_leafFields hentry with ⟨leaf, hleaf, -, hchild, hsegments⟩
    rw [leafPathOf_toString, hsegments, joinKeys_splitKeys, joined_iff hobserved hchild.2.1]
    exact ⟨leaf, hleaf, walkText_of_isPathKey hchild.2, (hleaves leaf hleaf hchild).2⟩

/-- In the example a path that is joined to another leaf reads that leaf. -/
theorem LeavesUnambiguous.of_join (hobserved : FieldNode.Observed profile.root)
    (hdenote : PathsDenote profile (leafFields semantics profile.root))
    (hjoin : PathsJoin ((leafFields semantics profile.root).map Prod.snd) (profileLeaves profile)) :
    LeavesUnambiguous profile.root := by
  intro leaf hleaf hchild
  rcases exists_mem_leafFields semantics hleaf hchild with ⟨field, hfield, hsegments⟩
  have hget : (exampleOf profile.root).getAt (splitKeys (joinKeys leaf.1)) =
      some (leafExample (fieldTypes leaf.2)) := by
    rw [← hsegments]
    exact (hdenote _ (conformsTo_exampleOf hobserved _) _ hfield).trans
      (getAt_exampleOf hobserved hleaf)
  rcases mem_keyedLeaves_of_getAt hobserved hget (isObject_leafExample hchild.1) with
    ⟨node, hnode⟩
  have hone := hjoin.joined field (List.mem_map_of_mem (f := Prod.snd) hfield)
  rw [leafPathOf_toString, hsegments, joinKeys_splitKeys, joined_iff hobserved hchild.2.1] at hone
  rcases hone with ⟨only, -, -, hunique⟩
  have hself := hunique leaf hleaf (walkText_of_isPathKey hchild.2)
  have htext := joinKeys_splitKeys (joinKeys leaf.1)
  have hread : walkText (splitKeys (joinKeys leaf.1)) = joinKeys leaf.1 :=
    (walkText_of_isPathKey (htext.symm ▸ hchild.2)).trans htext
  have hsplit : splitKeys (joinKeys leaf.1) = leaf.1 := (hunique _ hnode hread).trans hself.symm
  constructor
  · intro key hkey
    rw [← hsplit] at hkey
    exact dot_notMem_splitKeys hkey
  · intro other hother htext
    exact (hunique other hother htext).trans hself.symm

/-- Plain leaves are unambiguous: no two of them have one text. -/
theorem LeavesPlain.unambiguous {root : FieldNode} (hplain : LeavesPlain root) :
    LeavesUnambiguous root := by
  intro leaf hleaf hchild
  have hkeys := ne_nil_of_isPathKey hchild.2
  rcases List.exists_mem_of_ne_nil _ hkeys with ⟨key, hkey⟩
  have hself := (hplain leaf hleaf ⟨key, hkey, ne_empty_of_isPathKey hchild.2 key hkey⟩).1
  refine ⟨fun key hkey ↦ (hself key hkey).2, fun other hother htext ↦ ?_⟩
  have hfiled : ∃ key ∈ other.1, key ≠ "" := walkText_ne_empty_iff.mp (htext ▸ hchild.2.1)
  have hother := (hplain other hother hfiled).1
  have hne : other.1 ≠ [] := List.ne_nil_of_mem hfiled.choose_spec.1
  calc other.1 = splitKeys (joinKeys other.1) :=
        (splitKeys_joinKeys hne fun key hkey ↦ (hother key hkey).2).symm
    _ = splitKeys (walkText other.1) := by
        rw [walkText_eq_joinKeys hne fun key hkey ↦ (hother key hkey).1]
    _ = splitKeys (joinKeys leaf.1) := by rw [htext]
    _ = leaf.1 := splitKeys_joinKeys hkeys fun key hkey ↦ (hself key hkey).2

theorem LeavesPlain.joinOneToOne (hobserved : FieldNode.Observed profile.root)
    (hplain : LeavesPlain profile.root) :
    JoinOneToOne ((leafFields semantics profile.root).map Prod.snd) (profileLeaves profile) := by
  refine ⟨hplain.unambiguous.join hobserved, fun found hfound ↦ ?_⟩
  rcases (mem_profileLeaves hobserved).mp hfound with ⟨leaf, hleaf, htext, rfl⟩
  have hfiled := walkText_ne_empty_iff.mp htext
  rcases hplain leaf hleaf hfiled with ⟨hkeys, htype⟩
  have hkey := isPathKey_of_isPlain (List.ne_nil_of_mem hfiled.choose_spec.1) hkeys
  rcases exists_mem_leafFields semantics hleaf ⟨htype, hkey⟩ with
    ⟨field, hfield, hsegments⟩
  refine ⟨field, List.mem_map_of_mem (f := Prod.snd) hfield, ?_⟩
  rw [leafPathOf_toString, hsegments, joinKeys_splitKeys]
  exact (walkText_of_isPathKey hkey).symm

/-- A leaf that is filed under the text of a child field is the leaf of that field. -/
theorem LeavesUnambiguous.plain (hobserved : FieldNode.Observed profile.root)
    (hleaves : LeavesUnambiguous profile.root)
    (hjoin : JoinOneToOne ((leafFields semantics profile.root).map Prod.snd)
      (profileLeaves profile)) : LeavesPlain profile.root := by
  intro leaf hleaf hfiled
  have htext := walkText_ne_empty_iff.mpr hfiled
  rcases hjoin.covered _ ((mem_profileLeaves hobserved).mpr ⟨leaf, hleaf, htext, rfl⟩) with
    ⟨field, hfield, hpath⟩
  rcases List.mem_map.mp hfield with ⟨entry, hentry, rfl⟩
  rcases mem_leafFields hentry with ⟨only, honly, -, hchild, hsegments⟩
  rw [leafPathOf_toString, hsegments, joinKeys_splitKeys] at hpath
  rcases hleaves only honly hchild with ⟨hdots, hunique⟩
  have hsame : leaf = only := by
    have hnodup : ((keyedLeaves profile.root).map Prod.fst).Nodup :=
      List.pairwise_map.mpr (keyedLeaves_pairwise hobserved)
    exact List.inj_on_of_nodup_map hnodup hleaf honly (hunique leaf hleaf hpath.symm)
  rw [hsame]
  exact ⟨fun key hkey ↦ ⟨ne_empty_of_isPathKey hchild.2 key hkey, hdots key hkey⟩, hchild.1⟩

theorem leafFields_join_iff (hobserved : FieldNode.Observed profile.root) :
    let derived := leafFields semantics profile.root
    (PathsDenote profile derived ∧ PathsJoin (derived.map Prod.snd) (profileLeaves profile) ↔
        LeavesUnambiguous profile.root) ∧
      (PathsDenote profile derived ∧ JoinOneToOne (derived.map Prod.snd) (profileLeaves profile) ↔
        LeavesPlain profile.root) := by
  constructor
  · constructor
    · exact fun ⟨hdenote, hjoin⟩ ↦ .of_join hobserved hdenote hjoin
    · exact fun hleaves ↦ ⟨hleaves.denote, hleaves.join hobserved⟩
  · constructor
    · exact fun ⟨hdenote, hjoin⟩ ↦
        (LeavesUnambiguous.of_join hobserved hdenote hjoin.toPathsJoin).plain hobserved hjoin
    · exact fun hplain ↦ ⟨hplain.unambiguous.denote, hplain.joinOneToOne hobserved⟩

/-- Without child fields there must be no value evidence either. -/
theorem no_fields_join (profile : Profile) (leaves : List LeafValueProfile) :
    PathsDenote profile [] ∧ PathsJoin [] leaves ∧ (JoinOneToOne [] leaves ↔ leaves = []) := by
  have hjoin : PathsJoin [] leaves := ⟨List.Pairwise.nil, by simp⟩
  refine ⟨by simp [PathsDenote], hjoin, fun hone ↦ ?_, fun hnil ↦ ⟨hjoin, by simp [hnil]⟩⟩
  refine List.eq_nil_iff_forall_not_mem.mpr fun leaf hleaf ↦ ?_
  rcases hone.covered leaf hleaf with ⟨field, hfield, -⟩
  exact List.not_mem_nil hfield

/-- A leaf is filed exactly if some key of it is not empty. -/
theorem profileLeaves_ne_nil_iff (hobserved : FieldNode.Observed profile.root) :
    profileLeaves profile ≠ [] ↔ ∃ leaf ∈ keyedLeaves profile.root, ∃ key ∈ leaf.1, key ≠ "" := by
  constructor
  · intro hne
    rcases List.exists_mem_of_ne_nil _ hne with ⟨found, hfound⟩
    rcases (mem_profileLeaves hobserved).mp hfound with ⟨leaf, hleaf, htext, -⟩
    exact ⟨leaf, hleaf, walkText_ne_empty_iff.mp htext⟩
  · rintro ⟨leaf, hleaf, hfiled⟩
    exact List.ne_nil_of_mem ((mem_profileLeaves hobserved).mpr
      ⟨leaf, hleaf, walkText_ne_empty_iff.mpr hfiled, rfl⟩)

/-- A profile of no documents has nothing below the root. -/
theorem children_of_summarizes_nil {field : FieldNode} (hsummary : Summarizes field []) :
    field.children = [] := by
  cases hsummary with
  | intro _ _ sorted children _ =>
      refine List.eq_nil_iff_forall_not_mem.mpr fun child hchild ↦ ?_
      have hpart := children child.1
      rw [sorted.mem_iff.mp hchild] at hpart
      cases hpart with
      | some nonempty _ => exact nonempty rfl

/-- The root alone is neither filed nor a child field. -/
theorem childless_profile (semantics : List (List String × FieldSemantics))
    (hempty : profile.root.children = []) :
    profileLeaves profile = [] ∧ walkCanonNode semantics (profileText profile).value [] = [] := by
  refine ⟨?_, walkCanonNode_leaf _ (hempty ▸ List.Pairwise.nil) hempty profile.count []⟩
  rw [profileLeaves, walkValues_eq, hempty]
  rfl

theorem childless_leaves {root : FieldNode} (hempty : root.children = []) :
    LeavesUnambiguous root ∧ LeavesPlain root ∧
      ¬ ∃ leaf ∈ keyedLeaves root, ∃ key ∈ leaf.1, key ≠ "" := by
  have hkeys (leaf : List String × FieldNode) (hleaf : leaf ∈ keyedLeaves root) : leaf.1 = [] := by
    rw [keyedLeaves_eq, hempty, List.isEmpty_nil, if_pos rfl, List.mem_singleton] at hleaf
    rw [hleaf]
  have hnone : ¬ ∃ leaf ∈ keyedLeaves root, ∃ key ∈ leaf.1, key ≠ "" := by
    rintro ⟨leaf, hleaf, key, hkey, -⟩
    rw [hkeys leaf hleaf] at hkey
    exact List.not_mem_nil hkey
  refine ⟨fun leaf hleaf hchild ↦ ?_, fun leaf hleaf hfiled ↦ ?_, hnone⟩
  · exact absurd (hkeys leaf hleaf) (ne_nil_of_isPathKey hchild.2)
  · exact absurd ⟨leaf, hleaf, hfiled⟩ hnone

end Join

/-! ## Published profiles -/

section Published

variable {fromStr : Bytes → Except String Value} {record : SchemaRecord}
  {semantic : Option SemanticMetadata} {limit : ℕ}

/-- The child fields of a published profile are read from its JSON, if it is not nested too deep. -/
theorem derivedFields_eq (hcanonicalizer : record.canonicalizer = generalizer)
    (hcanonical : record.canonical = Cold.canonicalText profile)
    (hreads : ReadsText fromStr limit (profileText profile)) :
    derivedFields fromStr record semantic =
      if (profileText profile).nesting < limit then
        walkCanonNode ((semantic.map semanticByPath).getD []) (profileText profile).value []
      else [] := by
  have hbytes : utf8 record.canonical = (profileText profile).write := by
    rw [hcanonical, Cold.utf8_canonicalText, generalizedCanonicalJson_eq]
  rw [derivedFields, if_neg (not_not.mpr hcanonicalizer), hbytes]
  unfold ReadsText at hreads
  split_ifs at hreads ⊢ with hnesting
  · rw [hreads]
  · rcases hreads with ⟨message, hreads⟩
    rw [hreads]

/-- The child fields of a published profile read their leaves and join their evidence if their paths
are unambiguous, and they join all of it if all leaves are plain. -/
theorem child_fields_join_iff {tree : MergeTree Node}
    (hcanonicalizer : record.canonicalizer = generalizer)
    (hcanonical : record.canonical = Cold.canonicalText (profileOfTree tree))
    (hreads : ReadsText fromStr limit (profileText (profileOfTree tree))) :
    let profile := profileOfTree tree
    let derived := derivedFields fromStr record semantic
    let fields := childFieldsFromSchema fromStr record semantic
    (PathsDenote profile derived ∧ PathsJoin fields (profileLeaves profile) ↔
        ((profileText profile).nesting < limit → LeavesUnambiguous profile.root)) ∧
      (PathsDenote profile derived ∧ JoinOneToOne fields (profileLeaves profile) ↔
        LeavesPlain profile.root ∧ ((∃ leaf ∈ keyedLeaves profile.root, ∃ key ∈ leaf.1, key ≠ "") →
          (profileText profile).nesting < limit)) := by
  intro profile derived fields
  rcases Cold.profileOfTree_summarizes tree with ⟨-, hsummary, -⟩
  have hderived : derived = _ := derivedFields_eq hcanonicalizer hcanonical hreads
  have hfields : fields = derived.map Prod.snd := rfl
  rw [hfields, hderived]
  by_cases hdocs : Cold.documents tree = []
  · rw [hdocs] at hsummary
    have hempty := children_of_summarizes_nil hsummary
    rcases childless_profile ((semantic.map semanticByPath).getD []) hempty with ⟨hevidence, hwalk⟩
    rcases childless_leaves hempty with ⟨hunambiguous, hplain, hnone⟩
    rcases no_fields_join profile (profileLeaves profile) with ⟨hdenote, hjoin, hone⟩
    rw [hwalk, ite_self]
    constructor
    · exact iff_of_true ⟨hdenote, hjoin⟩ fun _ ↦ hunambiguous
    · exact iff_of_true ⟨hdenote, hone.mpr hevidence⟩ ⟨hplain, fun h ↦ absurd h hnone⟩
  · have hobserved : FieldNode.Observed profile.root := Summarizes.observed hsummary hdocs
    have hwalk : walkCanonNode ((semantic.map semanticByPath).getD []) (profileText profile).value
        [] = leafFields ((semantic.map semanticByPath).getD []) profile.root :=
      walkCanonNode_eq _ hobserved profile.count []
    rw [hwalk]
    by_cases hnesting : (profileText profile).nesting < limit
    · rw [if_pos hnesting, forall_prop_of_true hnesting, and_iff_left fun _ ↦ hnesting]
      exact leafFields_join_iff hobserved
    · rcases no_fields_join profile (profileLeaves profile) with ⟨hdenote, hjoin, hone⟩
      rw [if_neg hnesting, List.map_nil, hone, and_iff_right hdenote, and_iff_right hdenote]
      refine ⟨iff_of_true hjoin fun h ↦ absurd h hnesting, ?_⟩
      have hfiled := profileLeaves_ne_nil_iff hobserved
      constructor
      · intro hnil
        have hnone := mt hfiled.mpr (not_not.mpr hnil)
        exact ⟨fun leaf hleaf hkey ↦ absurd ⟨leaf, hleaf, hkey⟩ hnone, fun h ↦ absurd h hnone⟩
      · rintro ⟨-, hlimit⟩
        by_contra hne
        exact hnesting (hlimit (hfiled.mp hne))

end Published

instance (root : FieldNode) : Decidable (LeavesPlain root) := by
  unfold LeavesPlain IsPlain
  infer_instance

/-- A record that is published from documents. -/
def publishedFrom (tree : MergeTree Node) : SchemaRecord :=
  { Cold.draftA with canonical := Cold.canonicalText (profileOfTree tree) }

theorem publishedFrom_canonical (tree : MergeTree Node) :
    (publishedFrom tree).canonicalizer = generalizer ∧
      (publishedFrom tree).canonical = Cold.canonicalText (profileOfTree tree) :=
  ⟨rfl, rfl⟩

theorem readerOf_published {tree : MergeTree Node}
    (hnesting : (profileText (profileOfTree tree)).nesting < 128) :
    ReadsText (readerOf [profileText (profileOfTree tree)]) 128
      (profileText (profileOfTree tree)) :=
  readerOf_readsText (List.pairwise_singleton _ _) (by simpa using hnesting) _
    (List.mem_singleton_self _)

/-- Two documents with a nested member, an array and two types in one place. -/
def plainSample : MergeTree Node :=
  .node (.leaf (.object [("a", .object [("b", .number "1")]), ("c", .array [.bool true] false)]))
    (.leaf (.object [("a", .object [("b", .string "x")])]))

theorem child_fields_join_plain :
    let profile := profileOfTree plainSample
    let fromStr := readerOf [profileText profile]
    PathsDenote profile (derivedFields fromStr (publishedFrom plainSample) none) ∧
      JoinOneToOne (childFieldsFromSchema fromStr (publishedFrom plainSample) none)
        (profileLeaves profile) := by
  have hnesting : (profileText (profileOfTree plainSample)).nesting < 128 := by decide +kernel
  rcases publishedFrom_canonical plainSample with ⟨hcanonicalizer, hcanonical⟩
  exact (child_fields_join_iff hcanonicalizer hcanonical (readerOf_published hnesting)).2.mpr
    ⟨by decide +kernel, fun _ ↦ hnesting⟩

/-- The documents of a published profile are conforming events. -/
theorem documents_conform {tree : MergeTree Node} {node : Node} (hnode : node ∈ tree.values) :
    conformsTo (nodeValue node) ((profileOfTree tree).root.view (profileOfTree tree).count) :=
  Summarizes.conforms (Cold.profileOfTree_summarizes tree).2.1 node
    (Multiset.mem_toList.mpr hnode) _

/-- A document whose only key has a dot. -/
def dottedSample : MergeTree Node := .leaf (.object [("a.b", .number "1")])

/-- The document itself conforms, and the path of its field reads nothing from it. -/
theorem child_fields_misread_dotted_key :
    let profile := profileOfTree dottedSample
    let fromStr := readerOf [profileText profile]
    let event := Value.object [("a.b", .number (.literal "1"))]
    ReadsText fromStr 128 (profileText profile) ∧
      conformsTo event (profile.root.view profile.count) ∧
        ∃ entry ∈ derivedFields fromStr (publishedFrom dottedSample) none,
          event.getAt entry.1 = some (.number (.literal "1")) ∧
            event.get entry.2.path = none := by
  have hnesting : (profileText (profileOfTree dottedSample)).nesting < 128 := by decide +kernel
  have hreads := readerOf_published hnesting
  rcases publishedFrom_canonical dottedSample with ⟨hcanonicalizer, hcanonical⟩
  have hobserved : FieldNode.Observed (profileOfTree dottedSample).root := by
    refine Summarizes.observed (Cold.profileOfTree_summarizes dottedSample).2.1 ?_
    simp [Cold.documents, dottedSample, MergeTree.values]
  have hmem : ["a.b"] ∈ (keyedLeaves (profileOfTree dottedSample).root).map Prod.fst := by
    decide +kernel
  rcases List.mem_map.mp hmem with ⟨leaf, hleaf, hkeys⟩
  have htypes : ∀ leaf ∈ keyedLeaves (profileOfTree dottedSample).root,
      (leafScalarType (fieldTypes leaf.2) (elemTypes leaf.2)).isSome := by
    decide +kernel
  have hchild : HasChildField leaf := by
    refine ⟨htypes leaf hleaf, ?_⟩
    rw [hkeys]
    decide +kernel
  rcases exists_mem_leafFields [] hleaf hchild with ⟨field, hfield, hsegments⟩
  have hsplit : splitKeys (joinKeys ["a.b"]) = ["a", "b"] := by decide +kernel
  rw [hkeys, hsplit] at hsegments
  have hdocument : Node.object [("a.b", .number "1")] ∈ dottedSample.values :=
    Multiset.mem_singleton_self _
  refine ⟨hreads, documents_conform hdocument, (leaf.1, field), ?_, ?_, ?_⟩
  · rw [derivedFields_eq hcanonicalizer hcanonical hreads, if_pos hnesting]
    exact (walkCanonNode_eq [] hobserved _ []).symm ▸ hfield
  · rw [hkeys]
    rfl
  · rw [Value.get, hsegments]
    rfl

end Deblob.Umbrella
