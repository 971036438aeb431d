import Deblob.Lib.FirstFit
import Deblob.Umbrella.Alignment

/-!
# What the assembly binds

The assembly is first fit over the pairs that may be bound: they fit if they share neither source
nor target. So a source is bound once and a target is given once, and a pair that is left out shares
its source or its target with one that was bound before.
-/

namespace Deblob.Umbrella

open Lib

/-! ## Items whose key occurs once -/

section Once

variable {α κ : Type*} [DecidableEq κ] (key : α → κ) {items : List α} {item other : α}

theorem eq_of_count_eq_one (honce : (items.map key).count (key item) = 1) (hitem : item ∈ items)
    (hother : other ∈ items) (heq : key other = key item) : other = item := by
  rw [List.count_eq_countP, List.countP_map, List.countP_eq_length_filter,
    List.length_eq_one_iff] at honce
  rcases honce with ⟨only, honly⟩
  have hunique : ∀ found ∈ items, key found = key item → found = only := by
    intro found hfound hkey
    rw [← List.mem_singleton, ← honly, List.mem_filter]
    exact ⟨hfound, by simp [hkey]⟩
  rw [hunique other hother heq, hunique item hitem rfl]

theorem ne_of_count_eq_one {before after : List α} (hsplit : items = before ++ item :: after)
    (honce : (items.map key).count (key item) = 1) (hother : other ∈ before ++ after) :
    key other ≠ key item := by
  intro heq
  have hzero : ((before ++ after).map key).count (key item) = 0 := by
    rw [hsplit] at honce
    simp only [List.map_append, List.map_cons, List.count_append, List.count_cons_self] at honce ⊢
    omega
  exact List.count_eq_zero.mp hzero (heq ▸ List.mem_map_of_mem hother)

end Once

/-! ## First fit -/

/-- Both pairs can be bound. -/
def CandidatePair.Apart (left right : CandidatePair) : Prop :=
  left.child.path ≠ right.child.path ∧ left.umbrellaField.path ≠ right.umbrellaField.path

instance : DecidableRel CandidatePair.Apart := fun left right ↦
  inferInstanceAs (Decidable (left.child.path ≠ right.child.path ∧
    left.umbrellaField.path ≠ right.umbrellaField.path))

theorem foldl_bindPair (adjudicate : CandidatePair → Relation) (pairs : List CandidatePair) :
    pairs.foldl (bindPair adjudicate) ⟨[], []⟩ =
      let chosen := firstFit CandidatePair.Apart
        (pairs.filter fun pair ↦ (adjudicate pair).autoBindable)
      ⟨chosen.map CandidatePair.binding, (chosen.map (·.child.path)).reverse⟩ := by
  induction pairs using List.reverseRecOn with
  | nil => rfl
  | append_singleton pairs pair ih =>
      rw [List.foldl_append, ih, List.foldl_cons, List.foldl_nil, List.filter_append, bindPair]
      cases hbindable : (adjudicate pair).autoBindable with
      | false => simp [hbindable]
      | true =>
          rw [List.filter_singleton, hbindable, cond_true, firstFit_concat]
          simp only [Bool.not_true, Bool.false_eq_true, if_false, List.mem_reverse, List.mem_map,
            List.any_map, List.any_eq_true, Function.comp_apply, decide_eq_true_eq]
          by_cases hapart : ∀ taken ∈ firstFit CandidatePair.Apart
              (pairs.filter fun pair ↦ (adjudicate pair).autoBindable), taken.Apart pair
          · rw [if_pos hapart, if_neg, if_neg]
            · simp
            · rintro ⟨taken, htaken, heq⟩
              exact (hapart taken htaken).2 heq
            · rintro ⟨taken, htaken, heq⟩
              exact (hapart taken htaken).1 heq
          · rw [if_neg hapart]
            push Not at hapart
            rcases hapart with ⟨taken, htaken, hclash⟩
            split_ifs with hsource htarget
            · rfl
            · rfl
            · exact absurd ⟨fun heq ↦ hsource ⟨taken, htaken, heq⟩,
                fun heq ↦ htarget ⟨taken, htaken, heq⟩⟩ hclash

/-- The pairs that the anchor lets be bound. -/
def bindablePairs (umbrella : List GoldField) (member : List AnnotatedField) :
    List CandidatePair :=
  (enumerate member umbrella).filter fun pair ↦ (deterministicAnchor pair).autoBindable

/-- The pairs that are bound. -/
def chosenPairs (umbrella : List GoldField) (member : List AnnotatedField) : List CandidatePair :=
  firstFit CandidatePair.Apart (bindablePairs umbrella member)

/-- The transform that the anchor makes for a member. -/
def anchorTransform (umbrella : List GoldField) (member : List AnnotatedField) :
    AssembledTransform :=
  assembleTransform umbrella member deterministicAnchor

section Transform

variable {umbrella : List GoldField} {member : List AnnotatedField} {pair : CandidatePair}

theorem bindings_anchorTransform (umbrella : List GoldField) (member : List AnnotatedField) :
    (anchorTransform umbrella member).bindings =
      (chosenPairs umbrella member).map CandidatePair.binding := by
  simp [anchorTransform, assembleTransform, foldl_bindPair, chosenPairs, bindablePairs]

theorem unmapped_anchorTransform (umbrella : List GoldField) (member : List AnnotatedField) :
    (anchorTransform umbrella member).unmappedSourcePaths =
      (member.map (·.path)).filter fun path ↦
        path ∉ (chosenPairs umbrella member).map (·.child.path) := by
  simp only [anchorTransform, assembleTransform, foldl_bindPair, List.filter_map, List.mem_reverse,
    chosenPairs, bindablePairs]
  rfl

/-- The gold fields that a member's field may be bound to. -/
def bindableFields (umbrella : List GoldField) (child : AnnotatedField) : List GoldField :=
  umbrella.filter fun field ↦ child.canonicalFieldId = some field.canonicalFieldId &&
    (deterministicAnchor (candidatePair child field)).autoBindable

theorem bindablePairs_eq (umbrella : List GoldField) (member : List AnnotatedField) :
    bindablePairs umbrella member =
      member.flatMap fun child ↦ (bindableFields umbrella child).map (candidatePair child) := by
  unfold bindablePairs enumerate
  rw [List.filter_flatMap]
  congr 1
  funext child
  unfold bindableFields
  cases child.canonicalFieldId with
  | none => simp
  | some id =>
      rw [List.filter_map, List.filter_filter]
      congr 2
      funext field
      simp [Bool.and_comm, eq_comm]

theorem mem_bindablePairs : pair ∈ bindablePairs umbrella member ↔
    ∃ child ∈ member, ∃ field ∈ bindableFields umbrella child,
      candidatePair child field = pair := by
  simp [bindablePairs_eq]

/-- A pair that is bound is one of the member's field and a gold field that suits it. -/
theorem of_mem_chosenPairs (hpair : pair ∈ chosenPairs umbrella member) :
    pair.child ∈ member ∧ pair.umbrellaField ∈ bindableFields umbrella pair.child ∧
      candidatePair pair.child pair.umbrellaField = pair := by
  have hbindable := (firstFit_sublist _ _).subset hpair
  rcases mem_bindablePairs.mp hbindable with ⟨child, hchild, field, hfield, rfl⟩
  exact ⟨hchild, hfield, rfl⟩

/-- The pairs of a field come between those of the fields before and after it. -/
theorem bindablePairs_append (umbrella : List GoldField) (before : List AnnotatedField)
    (child : AnnotatedField) (after : List AnnotatedField) :
    bindablePairs umbrella (before ++ child :: after) =
      bindablePairs umbrella before ++
        ((bindableFields umbrella child).map (candidatePair child) ++
          bindablePairs umbrella after) := by
  simp [bindablePairs_eq]

/-- The pairs before a pair are those of the fields before its own and those of its own field with
the gold fields before its own. -/
theorem split_bindablePairs {before after : List CandidatePair}
    (hsplit : bindablePairs umbrella member = before ++ pair :: after) :
    ∃ sooner later preferred rest, member = sooner ++ pair.child :: later ∧
      bindableFields umbrella pair.child = preferred ++ pair.umbrellaField :: rest ∧
        candidatePair pair.child pair.umbrellaField = pair ∧
          before = bindablePairs umbrella sooner ++ preferred.map (candidatePair pair.child) := by
  rw [bindablePairs_eq] at hsplit
  induction member generalizing before with
  | nil => simp at hsplit
  | cons child member ih =>
      rw [List.flatMap_cons, List.append_eq_append_iff] at hsplit
      rcases hsplit with ⟨between, rfl, hrest⟩ | ⟨between, hpairs, hrest⟩
      · rcases ih hrest with ⟨sooner, later, preferred, rest, rfl, hfields, hpair, rfl⟩
        refine ⟨child :: sooner, later, preferred, rest, rfl, hfields, hpair, ?_⟩
        simp [bindablePairs_eq]
      · cases between with
        | nil =>
            have hfirst : member.flatMap (fun child ↦
                (bindableFields umbrella child).map (candidatePair child)) = [] ++ pair :: after :=
              hrest.symm
            rcases ih hfirst with ⟨sooner, later, preferred, rest, rfl, hfields, hpair, hnil⟩
            refine ⟨child :: sooner, later, preferred, rest, rfl, hfields, hpair, ?_⟩
            rw [List.append_nil] at hpairs
            rw [← hpairs, ← List.append_nil (List.map _ _), hnil]
            simp [bindablePairs_eq]
        | cons first between =>
            cases hrest
            rcases List.map_eq_append_iff.mp hpairs with ⟨preferred, found, hfields, rfl, hfound⟩
            rcases List.map_eq_cons_iff.mp hfound with ⟨field, rest, rfl, rfl, -⟩
            exact ⟨[], member, preferred, rest, rfl, hfields, rfl, rfl⟩

/-- A pair that is not bound shares its source or target with one bound before: of an earlier field,
or of its own with an earlier gold field. -/
theorem chosenPairs_refused {sooner later : List AnnotatedField} {child : AnnotatedField}
    {preferred rest : List GoldField} {gold : GoldField}
    (hmember : member = sooner ++ child :: later)
    (hfields : bindableFields umbrella child = preferred ++ gold :: rest) :
    candidatePair child gold ∈ chosenPairs umbrella member ∨
      ∃ taken ∈ chosenPairs umbrella member,
        (taken.child ∈ sooner ∨ taken.child = child ∧ taken.umbrellaField ∈ preferred) ∧
          ¬ taken.Apart (candidatePair child gold) := by
  have hpairs : bindablePairs umbrella member =
      (bindablePairs umbrella sooner ++ preferred.map (candidatePair child)) ++
        candidatePair child gold ::
          (rest.map (candidatePair child) ++ bindablePairs umbrella later) := by
    rw [hmember, bindablePairs_append, hfields]
    simp
  rw [chosenPairs, hpairs]
  apply (firstFit_refused _ _ _).imp_right
  rintro ⟨taken, htaken, hbefore, hclash⟩
  refine ⟨taken, htaken, ?_, hclash⟩
  rcases List.mem_append.mp hbefore with hsooner | hpreferred
  · rcases mem_bindablePairs.mp hsooner with ⟨other, hother, field, -, rfl⟩
    exact .inl hother
  · rcases List.mem_map.mp hpreferred with ⟨field, hfield, rfl⟩
    exact .inr ⟨rfl, hfield⟩

theorem nodup_sources (umbrella : List GoldField) (member : List AnnotatedField) :
    ((chosenPairs umbrella member).map (·.child.path)).Nodup :=
  List.pairwise_map.mpr ((pairwise_firstFit _ _).imp And.left)

theorem nodup_targets (umbrella : List GoldField) (member : List AnnotatedField) :
    ((chosenPairs umbrella member).map (·.umbrellaField.path)).Nodup :=
  List.pairwise_map.mpr ((pairwise_firstFit _ _).imp And.right)

/-- The pairs bound to one target are one pair. -/
theorem eq_of_target {other : CandidatePair} (hpair : pair ∈ chosenPairs umbrella member)
    (hother : other ∈ chosenPairs umbrella member)
    (heq : other.umbrellaField.path = pair.umbrellaField.path) : other = pair :=
  List.inj_on_of_nodup_map (nodup_targets umbrella member) hother hpair heq

theorem eq_of_source {other : CandidatePair} (hpair : pair ∈ chosenPairs umbrella member)
    (hother : other ∈ chosenPairs umbrella member)
    (heq : other.child.path = pair.child.path) : other = pair :=
  List.inj_on_of_nodup_map (nodup_sources umbrella member) hother hpair heq

end Transform

end Deblob.Umbrella
