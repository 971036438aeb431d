import Deblob.Umbrella.Assembly
import Deblob.Umbrella.Delivery
import Deblob.Umbrella.Soundness

/-!
# Executable alignment

The umbrella of a cohort and the transforms that the anchor makes for its members are executable if
the fields of every member can be allotted to the gold paths: no path passes over an earlier field
that could take it, unless that one has a path it meets before, and a field that has a path is no
array, shares its own path with no other field, and delivers the type and unit of the first gold
field at the path.
-/

namespace Deblob.Umbrella

open Lib

/-! ## Gold paths and their fields -/

/-- The canonical ids of an umbrella with their gold paths. -/
def slots (cfids : List String) : List (String × JsonPath) :=
  cfids.zipIdx.map fun (id, index) ↦ (id, goldPath index id)

def goldPaths (cfids : List String) : List JsonPath := (slots cfids).map (·.2)

theorem map_fst_slots (cfids : List String) : (slots cfids).map Prod.fst = cfids := by
  rw [slots, List.map_map]
  exact List.zipIdx_map_fst 0 cfids

/-- Every gold field is made from a field of a member. -/
def Contributed (cfids : List String) (members : List (List AnnotatedField)) : Prop :=
  ∀ id ∈ cfids, (contributor members id).isSome

/-- The field that the gold fields of a field's id were made from. -/
def sourceOf (members : List (List AnnotatedField)) (field : AnnotatedField) :
    Option AnnotatedField :=
  field.canonicalFieldId.bind (contributor members)

/-- The field that the first gold field at a path was made from. -/
def wantedAt (cfids : List String) (members : List (List AnnotatedField)) (path : JsonPath) :
    Option AnnotatedField :=
  ((slots cfids).find? fun slot ↦ slot.2 = path).bind fun slot ↦ contributor members slot.1

/-- The gold paths that a field can be bound to, in the order it meets them. -/
def offers (cfids : List String) (members : List (List AnnotatedField)) (field : AnnotatedField) :
    List JsonPath :=
  ((slots cfids).filter fun slot ↦ field.canonicalFieldId = some slot.1 &&
    (contributor members slot.1).any (bindable field)).map (·.2)

/-- The fields of a member are allotted to the gold paths. -/
structure Allotment (cfids : List String) (members : List (List AnnotatedField))
    (member : List AnnotatedField) (owner : JsonPath → AnnotatedField) : Prop where
  offered : ∀ path ∈ goldPaths cfids, owner path ∈ member ∧ path ∈ offers cfids members (owner path)
  apart : ∀ path ∈ goldPaths cfids, ∀ other ∈ goldPaths cfids,
    owner path = owner other → path = other
  first : ∀ path ∈ goldPaths cfids, ∀ before after, member = before ++ owner path :: after →
    ∀ earlier ∈ before, path ∈ offers cfids members earlier →
      ∃ preferred ∈ goldPaths cfids, owner preferred = earlier ∧
        (offers cfids members earlier).idxOf preferred < (offers cfids members earlier).idxOf path
  alone : ∀ path ∈ goldPaths cfids, (member.map (·.path)).count (owner path).path = 1
  delivers : ∀ path ∈ goldPaths cfids, ∀ source ∈ sourceOf members (owner path),
    ∀ wanted ∈ wantedAt cfids members path, Delivers (owner path) source wanted

/-- The transform of a member passes static verification, and binds or parks every field once, to
targets of their own. -/
structure Executes (umbrella : List GoldField) (member : List AnnotatedField) : Prop where
  verified : verifyStatic (anchorTransform umbrella member).toChildTransform (goldSchema umbrella)
    (member.map (·.toChildField)) = []
  accounted : ((anchorTransform umbrella member).bindings.map (·.source) ++
    (anchorTransform umbrella member).unmappedSourcePaths).Perm (member.map (·.path))
  targets : ((anchorTransform umbrella member).bindings.map (·.target)).Nodup

/-- What the chosen pairs must be like. -/
structure SoundChoice (cfids : List String) (members : List (List AnnotatedField))
    (member : List AnnotatedField) : Prop where
  alone : ∀ pair ∈ chosenPairs (buildUmbrella cfids members) member,
    (member.map (·.path)).count pair.child.path = 1
  covers : ∀ path ∈ goldPaths cfids,
    ∃ pair ∈ chosenPairs (buildUmbrella cfids members) member, pair.umbrellaField.path = path
  delivers : ∀ pair ∈ chosenPairs (buildUmbrella cfids members) member,
    ∀ source ∈ sourceOf members pair.child,
      ∀ wanted ∈ wantedAt cfids members pair.umbrellaField.path, Delivers pair.child source wanted

section Cohort

variable {cfids : List String} {members : List (List AnnotatedField)}
  {member : List AnnotatedField} {child : AnnotatedField} {gold : GoldField} {path : JsonPath}

theorem mem_goldPaths : path ∈ goldPaths cfids ↔
    ∃ gold ∈ buildUmbrella cfids members, gold.path = path := by
  simp [goldPaths, slots, buildUmbrella, goldField]

/-- A gold field has the type and unit of the field it was made from. -/
theorem goldField_of_contributor {id : String} {source : AnnotatedField}
    (hsource : contributor members id = some source) (index : ℕ) :
    (goldField members id index).ty = .scalar source.ty ∧
      (goldField members id index).unit = source.unit := by
  simp [goldField, hsource]

theorem map_path_bindableFields (hcontributor : Contributed cfids members)
    (child : AnnotatedField) :
    (bindableFields (buildUmbrella cfids members) child).map (·.path) =
      offers cfids members child := by
  unfold bindableFields buildUmbrella offers slots
  rw [List.filter_map, List.filter_map, List.map_map, List.map_map]
  have hfilter : ∀ slot ∈ cfids.zipIdx,
      (deterministicAnchor (candidatePair child (goldField members slot.1 slot.2))).autoBindable =
        (contributor members slot.1).any (bindable child) := by
    intro slot hslot
    rcases Option.isSome_iff_exists.mp (hcontributor slot.1 (List.fst_mem_of_mem_zipIdx hslot))
      with ⟨source, hsource⟩
    rcases goldField_of_contributor hsource slot.2 with ⟨hty, hunit⟩
    rw [autoBindable_candidatePair hty hunit, hsource, Option.any_some]
  rw [List.filter_congr fun slot hslot ↦ ?_]
  · rfl
  · simp only [Function.comp_apply]
    rw [hfilter slot hslot]
    rfl

/-- What is known of a gold field that a member's field may be bound to. -/
theorem source_of_bindableFields (hcontributor : Contributed cfids members)
    (hgold : gold ∈ bindableFields (buildUmbrella cfids members) child) :
    ∃ source, sourceOf members child = some source ∧ gold.ty = .scalar source.ty ∧
      gold.unit = source.unit ∧ gold.cardinality = .required ∧ bindable child source ∧
        gold.path ∈ goldPaths cfids := by
  rcases List.mem_filter.mp hgold with ⟨hmem, hsuits⟩
  have hpath : gold.path ∈ goldPaths cfids := mem_goldPaths.mpr ⟨gold, hmem, rfl⟩
  rcases List.mem_map.mp hmem with ⟨⟨id, index⟩, hslot, rfl⟩
  rw [Bool.and_eq_true, decide_eq_true_eq] at hsuits
  rcases Option.isSome_iff_exists.mp (hcontributor id (List.fst_mem_of_mem_zipIdx hslot))
    with ⟨source, hsource⟩
  rcases goldField_of_contributor hsource index with ⟨hty, hunit⟩
  refine ⟨source, ?_, hty, hunit, rfl, ?_, hpath⟩
  · rw [sourceOf, hsuits.1]
    exact hsource
  · rw [← autoBindable_candidatePair hty hunit]
    exact hsuits.2

/-- The first gold field at a gold path. -/
theorem field_goldSchema (hcontributor : Contributed cfids members)
    (hpath : path ∈ goldPaths cfids) :
    ∃ goal wanted, (goldSchema (buildUmbrella cfids members)).field path = some goal ∧
      wantedAt cfids members path = some wanted ∧ goal.ty = .scalar wanted.ty ∧
        goal.unit = wanted.unit ∧ goal.cardinality = .required := by
  have hfind : ((slots cfids).find? fun slot ↦ slot.2 = path).isSome := by
    rcases List.mem_map.mp hpath with ⟨slot, hslot, heq⟩
    exact List.find?_isSome.mpr ⟨slot, hslot, decide_eq_true heq⟩
  simp only [slots, List.find?_map, Option.isSome_map, Function.comp_def] at hfind
  rcases Option.isSome_iff_exists.mp hfind with ⟨⟨id, index⟩, hslot⟩
  have hid : id ∈ cfids := List.fst_mem_of_mem_zipIdx (List.mem_of_find?_eq_some hslot)
  rcases Option.isSome_iff_exists.mp (hcontributor id hid) with ⟨wanted, hwanted⟩
  rcases goldField_of_contributor hwanted index with ⟨hty, hunit⟩
  refine ⟨(goldField members id index).toUmbrellaField, wanted, ?_, ?_, hty, hunit, rfl⟩
  · simp only [UmbrellaSchema.field, goldSchema, buildUmbrella, List.find?_map, Function.comp_def,
      goldField_path]
    exact congrArg (fun found ↦ (found.map fun slot ↦ goldField members slot.1 slot.2).map
      (·.toUmbrellaField)) hslot
  · simp only [wantedAt, slots, List.find?_map, Function.comp_def, hslot, Option.map_some,
      Option.bind_some, hwanted]

/-! ## From the transform to the choice -/

/-- A field with its path to itself is found by it. -/
theorem find?_of_alone (hchild : child ∈ member)
    (halone : (member.map (·.path)).count child.path = 1) :
    (member.map (·.toChildField)).find? (fun field ↦ field.path = child.path) =
      some child.toChildField := by
  have hfind : (member.find? fun field ↦ field.path = child.path).isSome :=
    List.find?_isSome.mpr ⟨child, hchild, decide_eq_true rfl⟩
  rcases Option.isSome_iff_exists.mp hfind with ⟨found, hfound⟩
  have hpath : found.path = child.path := by simpa using List.find?_some hfound
  have heq : found = child :=
    eq_of_count_eq_one (·.path) halone hchild (List.mem_of_find?_eq_some hfound) hpath
  subst heq
  rw [List.find?_map]
  exact congrArg (Option.map (·.toChildField)) hfound

theorem verified_iff (hcontributor : Contributed cfids members)
    (halone : ∀ pair ∈ chosenPairs (buildUmbrella cfids members) member,
      (member.map (·.path)).count pair.child.path = 1) :
    verifyStatic (anchorTransform (buildUmbrella cfids members) member).toChildTransform
        (goldSchema (buildUmbrella cfids members)) (member.map (·.toChildField)) = [] ↔
      SoundChoice cfids members member := by
  have hbindings := bindings_anchorTransform (buildUmbrella cfids members) member
  constructor
  · intro hnil
    have hchecked := (checkBindings_eq_nil (List.append_eq_nil_iff.mp hnil).1).1
    refine ⟨halone, fun path hpath ↦ ?_, fun pair hpair source hsource wanted hwanted ↦ ?_⟩
    · obtain ⟨gold, hgold, rfl⟩ :
          ∃ gold ∈ buildUmbrella cfids members, gold.path = path := mem_goldPaths.mp hpath
      have hrequired : gold.cardinality = .required := by
        rcases List.mem_map.mp hgold with ⟨slot, -, rfl⟩
        rfl
      have htotal := isTotal_of_verifyStatic hnil (List.mem_map_of_mem hgold) hrequired
      rcases List.any_eq_true.mp htotal with ⟨binding, hbinding, htarget⟩
      rw [hbindings] at hbinding
      rcases List.mem_map.mp hbinding with ⟨pair, hpair, rfl⟩
      refine ⟨pair, hpair, ?_⟩
      simp only [Bool.and_eq_true, decide_eq_true_eq] at htarget
      exact htarget.1.1
    · rcases of_mem_chosenPairs hpair with ⟨hchild, hgold, heq⟩
      rcases source_of_bindableFields hcontributor hgold with
        ⟨found, hfound, hty, hunit, hrequired, hbindable, hpath⟩
      rcases field_goldSchema hcontributor hpath with
        ⟨goal, asked, hgoal, hasked, hgoalTy, hgoalUnit, -⟩
      cases hfound.symm.trans hsource
      cases hasked.symm.trans hwanted
      rcases (hchecked pair.binding (hbindings ▸ List.mem_map_of_mem hpair)).2 with
        ⟨child, field, hbinding⟩
      cases (find?_of_alone hchild (halone pair hpair)).symm.trans hbinding.source
      cases hgoal.symm.trans hbinding.target
      rw [← checkOpChain_binding hty hunit hrequired hbindable hgoalTy hgoalUnit, heq]
      exact hbinding.chain
  · intro hsound
    apply List.append_eq_nil_iff.mpr
    constructor
    · apply checkBindings_of_checked
      · intro binding hbinding
        rw [hbindings] at hbinding
        rcases List.mem_map.mp hbinding with ⟨pair, hpair, rfl⟩
        rcases of_mem_chosenPairs hpair with ⟨hchild, hgold, heq⟩
        rcases source_of_bindableFields hcontributor hgold with
          ⟨source, hsource, hty, hunit, hrequired, hbindable, hpath⟩
        rcases field_goldSchema hcontributor hpath with
          ⟨goal, wanted, hgoal, hwanted, hgoalTy, hgoalUnit, -⟩
        have hdelivers := hsound.delivers pair hpair source hsource wanted hwanted
        refine ⟨List.not_mem_nil, pair.child.toChildField, goal, ?_, hgoal, ?_, ?_⟩
        · exact find?_of_alone hchild (halone pair hpair)
        · simp [CandidatePair.binding, hrequired]
        · rw [← checkOpChain_binding hty hunit hrequired hbindable hgoalTy hgoalUnit, heq]
            at hdelivers
          exact hdelivers
      · rw [hbindings, List.pairwise_map]
        exact (pairwise_firstFit _ _).imp And.right
    · apply List.flatMap_eq_nil_iff.mpr
      intro field hfield
      rcases List.mem_map.mp hfield with ⟨gold, hgold, rfl⟩
      rcases hsound.covers gold.path (mem_goldPaths.mpr ⟨gold, hgold, rfl⟩) with
        ⟨pair, hpair, htarget⟩
      rw [if_neg]
      rintro ⟨-, hnot⟩
      apply hnot
      apply List.any_eq_true.mpr
      refine ⟨pair.binding, hbindings ▸ List.mem_map_of_mem hpair, ?_⟩
      rcases source_of_bindableFields hcontributor (of_mem_chosenPairs hpair).2.1 with
        ⟨-, -, -, -, hrequired, -, -⟩
      simp [CandidatePair.binding, isSyntheticOnly, htarget, hrequired]

theorem accounted_iff (umbrella : List GoldField) (member : List AnnotatedField) :
    ((anchorTransform umbrella member).bindings.map (·.source) ++
        (anchorTransform umbrella member).unmappedSourcePaths).Perm (member.map (·.path)) ↔
      ∀ pair ∈ chosenPairs umbrella member, (member.map (·.path)).count pair.child.path = 1 := by
  have hsources : (anchorTransform umbrella member).bindings.map (·.source) =
      (chosenPairs umbrella member).map (·.child.path) := by
    rw [bindings_anchorTransform, List.map_map]
    rfl
  have hnodup := nodup_sources umbrella member
  have hparked : ∀ path ∈ (chosenPairs umbrella member).map (·.child.path),
      (((member.map (·.path)).filter fun path ↦
        path ∉ (chosenPairs umbrella member).map (·.child.path)).count path) = 0 := by
    intro path hmem
    rw [List.count_eq_zero, List.mem_filter]
    simp [hmem]
  rw [hsources, unmapped_anchorTransform, List.perm_iff_count]
  constructor
  · intro hcount pair hpair
    have hmem : pair.child.path ∈ (chosenPairs umbrella member).map (·.child.path) :=
      List.mem_map_of_mem hpair
    rw [← hcount, List.count_append, List.count_eq_one_of_mem hnodup hmem, hparked _ hmem]
  · intro halone path
    rw [List.count_append]
    by_cases hmem : path ∈ (chosenPairs umbrella member).map (·.child.path)
    · rcases List.mem_map.mp hmem with ⟨pair, hpair, rfl⟩
      rw [List.count_eq_one_of_mem hnodup hmem, halone pair hpair, hparked _ hmem]
    · rw [List.count_eq_zero_of_not_mem hmem, Nat.zero_add]
      apply List.count_filter
      simpa using hmem

theorem executes_iff_soundChoice (hcontributor : Contributed cfids members) :
    Executes (buildUmbrella cfids members) member ↔ SoundChoice cfids members member := by
  constructor
  · intro hexecutes
    exact (verified_iff hcontributor ((accounted_iff _ _).mp hexecutes.accounted)).mp
      hexecutes.verified
  · intro hsound
    refine ⟨(verified_iff hcontributor hsound.alone).mpr hsound,
      (accounted_iff _ _).mpr hsound.alone, ?_⟩
    rw [bindings_anchorTransform, List.map_map]
    exact nodup_targets _ _

/-! ## From the choice to the allotment -/

section Owner

variable {owner : JsonPath → AnnotatedField}

/-- Every gold path goes to the field that is bound to it. -/
def Owns (cfids : List String) (members : List (List AnnotatedField))
    (member : List AnnotatedField) (owner : JsonPath → AnnotatedField) : Prop :=
  ∀ path ∈ goldPaths cfids, ∃ pair ∈ chosenPairs (buildUmbrella cfids members) member,
    pair.umbrellaField.path = path ∧ pair.child = owner path

theorem exists_owns (hsound : SoundChoice cfids members member) :
    ∃ owner, Owns cfids members member owner := by
  have hpath : ∀ path, ∃ field : AnnotatedField, path ∈ goldPaths cfids →
      ∃ pair ∈ chosenPairs (buildUmbrella cfids members) member,
        pair.umbrellaField.path = path ∧ pair.child = field := by
    intro path
    by_cases hmem : path ∈ goldPaths cfids
    · rcases hsound.covers path hmem with ⟨pair, hpair, htarget⟩
      exact ⟨pair.child, fun _ ↦ ⟨pair, hpair, htarget, rfl⟩⟩
    · exact ⟨⟨⟨path, .bool, none, false⟩, none⟩, fun h ↦ absurd h hmem⟩
  choose owner howner using hpath
  exact ⟨owner, howner⟩

theorem goldPath_of_chosen (hcontributor : Contributed cfids members) {pair : CandidatePair}
    (hpair : pair ∈ chosenPairs (buildUmbrella cfids members) member) :
    pair.umbrellaField.path ∈ goldPaths cfids := by
  rcases source_of_bindableFields hcontributor (of_mem_chosenPairs hpair).2.1 with
    ⟨_, _, _, _, _, _, hpath⟩
  exact hpath

theorem Owns.owner_eq (howns : Owns cfids members member owner)
    (hcontributor : Contributed cfids members) {pair : CandidatePair}
    (hpair : pair ∈ chosenPairs (buildUmbrella cfids members) member) :
    owner pair.umbrellaField.path = pair.child := by
  rcases howns _ (goldPath_of_chosen hcontributor hpair) with ⟨other, hother, htarget, hchild⟩
  rw [← hchild, eq_of_target hpair hother htarget]

/-- A path passes over an earlier field that could take it only if that one was bound before. -/
theorem Owns.first (howns : Owns cfids members member owner)
    (hcontributor : Contributed cfids members) (hsound : SoundChoice cfids members member)
    (hpath : path ∈ goldPaths cfids) {before after : List AnnotatedField}
    (hmember : member = before ++ owner path :: after) {earlier : AnnotatedField}
    (hearlier : earlier ∈ before) (hoffers : path ∈ offers cfids members earlier) :
    ∃ preferred ∈ goldPaths cfids, owner preferred = earlier ∧
      (offers cfids members earlier).idxOf preferred <
        (offers cfids members earlier).idxOf path := by
  rcases howns path hpath with ⟨own, hown, htarget, hchild⟩
  have hapart : ∀ field ∈ before, field ≠ owner path := by
    intro field hfield heq
    exact ne_of_count_eq_one (·.path) hmember (hchild ▸ hsound.alone own hown)
      (List.mem_append_left _ hfield) (congrArg (·.path) heq)
  rcases List.append_of_mem hearlier with ⟨sooner, between, rfl⟩
  rw [List.append_assoc, List.cons_append] at hmember
  -- the first gold field of the path among those of the earlier field
  rcases List.eq_append_cons_of_mem hoffers with ⟨prefers, others, hsplit, hnot⟩
  have hpaths := (map_path_bindableFields hcontributor earlier).trans hsplit
  rcases List.map_eq_append_iff.mp hpaths with ⟨preferred, found, hfields, hprefers, hfound⟩
  rcases List.map_eq_cons_iff.mp hfound with ⟨gold, rest, rfl, rfl, -⟩
  rcases chosenPairs_refused hmember hfields with hchosen | ⟨taken, htaken, hbefore, hclash⟩
  · exact absurd (howns.owner_eq hcontributor hchosen).symm (hapart earlier hearlier)
  have hmem : taken.child ∈ sooner ++ earlier :: between := by
    rcases hbefore with hsooner | ⟨heq, -⟩
    · exact List.mem_append_left _ hsooner
    · rwa [heq]
  have hsource : taken.child.path = earlier.path := by
    by_contra hne
    apply hclash
    refine ⟨hne, fun htarget ↦ ?_⟩
    apply hapart _ hmem
    rw [← howns.owner_eq hcontributor htaken, htarget]
    rfl
  have heq : earlier = taken.child := by
    apply eq_of_count_eq_one (·.path) (hsound.alone taken htaken) (of_mem_chosenPairs htaken).1 _
      hsource.symm
    rw [hmember]
    simp
  subst heq
  have hpreferred : taken.umbrellaField.path ∈ prefers := by
    rcases hbefore with hsooner | ⟨-, hpreferred⟩
    · exact absurd rfl (ne_of_count_eq_one (·.path) hmember (hsound.alone taken htaken)
        (List.mem_append_left _ hsooner))
    · rw [← hprefers]
      exact List.mem_map_of_mem hpreferred
  refine ⟨taken.umbrellaField.path, goldPath_of_chosen hcontributor htaken,
    howns.owner_eq hcontributor htaken, ?_⟩
  rw [hsplit, List.idxOf_append_of_mem hpreferred, List.idxOf_append_of_notMem hnot]
  exact Nat.lt_add_right _ (List.idxOf_lt_length_of_mem hpreferred)

theorem allotment_of_owns (howns : Owns cfids members member owner)
    (hcontributor : Contributed cfids members) (hsound : SoundChoice cfids members member) :
    Allotment cfids members member owner where
  offered path hpath := by
    rcases howns path hpath with ⟨pair, hpair, rfl, hchild⟩
    rcases of_mem_chosenPairs hpair with ⟨hmem, hgold, -⟩
    rw [← hchild, ← map_path_bindableFields hcontributor]
    exact ⟨hmem, List.mem_map_of_mem hgold⟩
  apart path hpath other hother heq := by
    rcases howns path hpath with ⟨pair, hpair, rfl, hchild⟩
    rcases howns other hother with ⟨second, hsecond, rfl, hsecondChild⟩
    rw [← hchild, ← hsecondChild] at heq
    rw [eq_of_source hsecond hpair (congrArg (·.path) heq)]
  first path hpath before after hmember earlier hearlier hoffers :=
    howns.first hcontributor hsound hpath hmember hearlier hoffers
  alone path hpath := by
    rcases howns path hpath with ⟨pair, hpair, rfl, hchild⟩
    rw [← hchild]
    exact hsound.alone pair hpair
  delivers path hpath := by
    rcases howns path hpath with ⟨pair, hpair, rfl, hchild⟩
    rw [← hchild]
    exact hsound.delivers pair hpair

/-! ## From the allotment to the choice -/

theorem Allotment.unique (hallot : Allotment cfids members member owner)
    (hpath : path ∈ goldPaths cfids) {field : AnnotatedField} (hfield : field ∈ member)
    (heq : field.path = (owner path).path) : field = owner path :=
  eq_of_count_eq_one (·.path) (hallot.alone path hpath) (hallot.offered path hpath).1 hfield heq

theorem goldPath_of_bindable (hcontributor : Contributed cfids members) {pair : CandidatePair}
    (hpair : pair ∈ bindablePairs (buildUmbrella cfids members) member) :
    pair.child ∈ member ∧ pair.umbrellaField.path ∈ goldPaths cfids := by
  rcases mem_bindablePairs.mp hpair with ⟨field, hfield, gold, hgold, rfl⟩
  rcases source_of_bindableFields hcontributor hgold with ⟨_, _, _, _, _, _, hpath⟩
  exact ⟨hfield, hpath⟩

/-- The pair of an owner and a gold field at its path. -/
theorem Allotment.exists_pair (hallot : Allotment cfids members member owner)
    (hcontributor : Contributed cfids members) (hpath : path ∈ goldPaths cfids)
    {among : List AnnotatedField} (hamong : owner path ∈ among) :
    ∃ pair ∈ bindablePairs (buildUmbrella cfids members) among,
      pair.child = owner path ∧ pair.umbrellaField.path = path := by
  have hoffer := (hallot.offered path hpath).2
  rw [← map_path_bindableFields hcontributor] at hoffer
  rcases List.mem_map.mp hoffer with ⟨gold, hgold, htarget⟩
  exact ⟨_, mem_bindablePairs.mpr ⟨owner path, hamong, gold, hgold, rfl⟩, rfl, htarget⟩

/-- A pair that the allotment passes over comes after one it follows and clashes with. -/
theorem Allotment.refused (hallot : Allotment cfids members member owner)
    (hcontributor : Contributed cfids members) {before after : List CandidatePair}
    {pair : CandidatePair}
    (hsplit : bindablePairs (buildUmbrella cfids members) member = before ++ pair :: after)
    (hpass : owner pair.umbrellaField.path ≠ pair.child) :
    ∃ earlier ∈ before, owner earlier.umbrellaField.path = earlier.child ∧
      ¬ earlier.Apart pair := by
  rcases split_bindablePairs hsplit with
    ⟨sooner, later, preferred, rest, hmember, hfields, hpair, rfl⟩
  have hbindable : pair ∈ bindablePairs (buildUmbrella cfids members) member := by
    rw [hsplit]
    simp
  have hpath := (goldPath_of_bindable hcontributor hbindable).2
  have howner := (hallot.offered _ hpath).1
  rw [hmember, List.mem_append, List.mem_cons] at howner
  rcases howner with hsooner | heq | hlater
  · -- the owner comes earlier
    rcases hallot.exists_pair hcontributor hpath hsooner with ⟨own, hown, hchild, htarget⟩
    refine ⟨own, List.mem_append_left _ hown, ?_, fun hapart ↦ hapart.2 htarget⟩
    rw [htarget, hchild]
  · exact absurd heq hpass
  · -- the owner comes later, so that the field has a path it meets before
    rcases List.append_of_mem hlater with ⟨between, others, rfl⟩
    have hoffers := map_path_bindableFields hcontributor pair.child
    rw [hfields, List.map_append, List.map_cons] at hoffers
    have hsplitOwner : member = (sooner ++ pair.child :: between) ++
        owner pair.umbrellaField.path :: others := by
      rw [hmember]
      simp
    rcases hallot.first _ hpath _ _ hsplitOwner pair.child (by simp) (by simp [← hoffers]) with
      ⟨path, hgoldPath, hpathOwner, hidx⟩
    have hmem : path ∈ preferred.map (·.path) := by
      rw [← hoffers, List.idxOf_append, List.idxOf_append] at hidx
      by_contra hnot
      rw [if_neg hnot] at hidx
      split_ifs at hidx with htarget
      · have hlt := List.idxOf_lt_length_of_mem htarget
        omega
      · rw [List.idxOf_cons_self] at hidx
        omega
    rcases List.mem_map.mp hmem with ⟨gold, hgold, rfl⟩
    refine ⟨candidatePair pair.child gold, ?_, hpathOwner, fun hapart ↦ hapart.1 rfl⟩
    exact List.mem_append_right _ (List.mem_map_of_mem hgold)

/-- First fit follows the allotment. -/
theorem Allotment.chosen (hallot : Allotment cfids members member owner)
    (hcontributor : Contributed cfids members) :
    (∀ pair ∈ chosenPairs (buildUmbrella cfids members) member,
      owner pair.umbrellaField.path = pair.child) ∧
    ∀ pair ∈ bindablePairs (buildUmbrella cfids members) member,
      owner pair.umbrellaField.path = pair.child →
        ∃ taken ∈ chosenPairs (buildUmbrella cfids members) member,
          (taken.child.path, taken.umbrellaField.path) =
            (pair.child.path, pair.umbrellaField.path) := by
  refine @firstFit_of_rule _ _ CandidatePair.Apart _
    (fun pair ↦ (pair.child.path, pair.umbrellaField.path))
    (fun pair ↦ owner pair.umbrellaField.path = pair.child) _ ?_ ?_ ?_
  · intro left right pair hkey hapart
    rw [Prod.mk.injEq] at hkey
    exact ⟨hkey.1 ▸ hapart.1, hkey.2 ▸ hapart.2⟩
  · intro left hleft right hright howner hother hclash
    rcases goldPath_of_bindable hcontributor hleft with ⟨hleftMem, hleftPath⟩
    rcases goldPath_of_bindable hcontributor hright with ⟨hrightMem, hrightPath⟩
    have hchild : left.child.path = right.child.path → left.child = right.child := by
      intro heq
      rw [← hother] at heq ⊢
      exact hallot.unique hrightPath hleftMem heq
    by_cases hsource : left.child.path = right.child.path
    · have htarget := hallot.apart _ hleftPath _ hrightPath
        (by rw [howner, hother, hchild hsource])
      rw [hsource, htarget]
    · have htarget : left.umbrellaField.path = right.umbrellaField.path := by
        by_contra hne
        exact hclash ⟨hsource, hne⟩
      rw [← howner, ← hother, htarget]
  · intro before pair after hsplit hpass
    exact hallot.refused hcontributor hsplit hpass

theorem soundChoice_of_allotment (hcontributor : Contributed cfids members)
    (hallot : Allotment cfids members member owner) : SoundChoice cfids members member := by
  rcases hallot.chosen hcontributor with ⟨hchosen, hcovered⟩
  refine ⟨fun pair hpair ↦ ?_, fun path hpath ↦ ?_, fun pair hpair ↦ ?_⟩
  · rw [← hchosen pair hpair]
    exact hallot.alone _ (goldPath_of_chosen hcontributor hpair)
  · rcases hallot.exists_pair hcontributor hpath (hallot.offered path hpath).1 with
      ⟨own, hown, hchild, htarget⟩
    rcases hcovered own hown (by rw [htarget, hchild]) with ⟨taken, htaken, hkey⟩
    rw [Prod.mk.injEq, htarget] at hkey
    exact ⟨taken, htaken, hkey.2⟩
  · rw [← hchosen pair hpair]
    exact hallot.delivers _ (goldPath_of_chosen hcontributor hpair)

theorem executes_iff_allotment (hcontributor : Contributed cfids members) :
    Executes (buildUmbrella cfids members) member ↔
      ∃ owner, Allotment cfids members member owner := by
  rw [executes_iff_soundChoice hcontributor]
  constructor
  · intro hsound
    rcases exists_owns hsound with ⟨owner, howns⟩
    exact ⟨owner, allotment_of_owns howns hcontributor hsound⟩
  · rintro ⟨owner, hallot⟩
    exact soundChoice_of_allotment hcontributor hallot

end Owner

end Cohort

end Deblob.Umbrella
