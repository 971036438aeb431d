import Deblob.Cold.AutoPromote

/-!
# What the number of required fields says about the documents

The leaves of a profile are the positions below which no document has anything. The policy counts a
leaf if there are as many nodes as containers that could hold one. What the gate is there for is that
a leaf is in every document. The two differ below optional parents and below arrays.
-/

namespace Deblob.Cold

open Core Lib Fingerprint Redis
open Deblob.Monoid

/-! ## Leaves by their paths -/

section

variable {denom : ℕ} {field : FieldNode} {leaf : Leaf}

theorem mem_below {step : Step} {items : List Leaf} :
    leaf ∈ items.map (Leaf.below step) ↔
      ∃ rest, leaf.path = step :: rest ∧ { leaf with path := rest } ∈ items := by
  rw [List.mem_map]
  constructor
  · rintro ⟨inner, hinner, rfl⟩
    exact ⟨inner.path, rfl, hinner⟩
  · rintro ⟨rest, hpath, hinner⟩
    refine ⟨_, hinner, ?_⟩
    cases leaf
    cases hpath
    rfl

/-- The leaves are the fields at some position that have nothing below them. -/
theorem mem_leaves (hsorted : field.Sorted) :
    leaf ∈ leaves denom field ↔
      ∃ found, fieldAt leaf.path denom field = some (leaf.denom, found) ∧ isLeaf found ∧
        found.present = leaf.present := by
  induction hsorted generalizing denom leaf with
  | @intro field keys _ _ ihChildren ihElem =>
      rw [leaves_eq]
      rcases leaf with ⟨path, leafDenom, present⟩
      by_cases hleaf : isLeaf field
      · rw [if_pos hleaf, List.mem_singleton]
        unfold isLeaf at hleaf
        rw [Bool.and_eq_true, List.isEmpty_iff, Option.isNone_iff_eq_none] at hleaf
        cases path with
        | nil =>
            simp [fieldAt, isLeaf, hleaf.1, hleaf.2]
            tauto
        | cons step path =>
            cases step <;> simp [fieldAt, hleaf.1, hleaf.2]
      · rw [if_neg hleaf, List.mem_append, childLeaves_eq, elemLeaves_eq]
        simp only [List.mem_flatMap, mem_below, Option.mem_toList]
        cases path with
        | nil => simp [fieldAt, hleaf]
        | cons step path =>
            cases step with
            | key name =>
                simp only [fieldAt, List.cons.injEq, Step.key.injEq, reduceCtorEq, false_and,
                  and_false, exists_false, or_false, Option.bind_eq_some_iff]
                constructor
                · rintro ⟨child, hchild, _, ⟨rfl, rfl⟩, hbelow⟩
                  have hlookup := keys.mem_iff.mp hchild
                  rcases (ihChildren child.1 child.2 hlookup).mp hbelow with ⟨found, hfound, hrest⟩
                  exact ⟨found, ⟨child.2, hlookup, hfound⟩, hrest⟩
                · rintro ⟨found, ⟨child, hlookup, hfound⟩, hrest⟩
                  exact ⟨(name, child), keys.mem_iff.mpr hlookup, path, ⟨rfl, rfl⟩,
                    (ihChildren name child hlookup).mpr ⟨found, hfound, hrest⟩⟩
            | elem =>
                simp only [fieldAt, List.cons.injEq, reduceCtorEq, false_and, and_false,
                  exists_false, false_or, true_and, Option.bind_eq_some_iff]
                constructor
                · rintro ⟨elem, helem, _, rfl, hbelow⟩
                  rcases (ihElem elem helem).mp hbelow with ⟨found, hfound, hrest⟩
                  exact ⟨found, ⟨elem, helem, hfound⟩, hrest⟩
                · rintro ⟨found, ⟨elem, helem, hfound⟩, hrest⟩
                  exact ⟨elem, helem, path, rfl, (ihElem elem helem).mpr ⟨found, hfound, hrest⟩⟩

theorem head_of_mem_below {step : Step} {items : List Leaf} {path : List Step}
    (hpath : path ∈ (items.map (Leaf.below step)).map Leaf.path) : path.head? = some step := by
  rcases List.mem_map.mp hpath with ⟨leaf, hleaf, rfl⟩
  rcases mem_below.mp hleaf with ⟨rest, hrest, -⟩
  rw [hrest]
  rfl

/-- No two leaves have one path. -/
theorem nodup_leaves (hsorted : field.Sorted) : ((leaves denom field).map Leaf.path).Nodup := by
  induction hsorted generalizing denom with
  | @intro field keys _ _ ihChildren ihElem =>
      have hbelow (step : Step) (items : List Leaf) (hitems : (items.map Leaf.path).Nodup) :
          ((items.map (Leaf.below step)).map Leaf.path).Nodup := by
        have hpaths : (items.map (Leaf.below step)).map Leaf.path =
            (items.map Leaf.path).map (step :: ·) := by
          rw [List.map_map, List.map_map]
          rfl
        rw [hpaths]
        exact hitems.map (List.cons_injective)
      rw [leaves_eq]
      split_ifs with hleaf
      · exact List.nodup_singleton _
      · rw [childLeaves_eq, elemLeaves_eq, List.map_append, List.map_flatMap, List.map_flatMap,
          List.nodup_append]
        refine ⟨?_, ?_, ?_⟩
        · rw [List.nodup_flatMap]
          constructor
          · rintro ⟨key, child⟩ hchild
            exact hbelow _ _ (ihChildren key child (keys.mem_iff.mp hchild))
          · refine keys.imp fun {left right} hlt path hleft hright ↦ ?_
            have hhead := (head_of_mem_below hleft).symm.trans (head_of_mem_below hright)
            simp only [Option.some.injEq, Step.key.injEq] at hhead
            exact hlt.ne hhead
        · rw [List.nodup_flatMap]
          constructor
          · intro elem helem
            exact hbelow _ _ (ihElem elem (Option.mem_toList.mp helem))
          · cases field.arrayElem <;> simp
        · intro path hleft other hright heq
          rcases List.mem_flatMap.mp hleft with ⟨child, -, hchild⟩
          rcases List.mem_flatMap.mp hright with ⟨elem, -, helem⟩
          have hhead := (head_of_mem_below hchild).symm.trans
            ((congrArg List.head? heq).trans (head_of_mem_below helem))
          cases hhead

end

/-! ## Leaves by the documents -/

/-- The containers that could hold a position. -/
def containersAt (denom : ℕ) : List Step → List Node → ℕ
  | [], _ => denom
  | .key name :: path, nodes => containersAt (countRank 5 nodes) path (valuesAt name nodes)
  | .elem :: path, nodes => containersAt (countRank 4 nodes) path (itemsOf nodes)

/-- The documents have something at a position and nothing below it. -/
structure LeafAt (docs : List Node) (path : List Step) : Prop where
  observed : nodesAt path docs ≠ []
  bare : ∀ node ∈ nodesAt path docs, node.items = [] ∧ ∀ key, node.valueAt key = none

/-- A leaf of which there are as many nodes as containers that could hold one. -/
def Counted (docs : List Node) (path : List Step) : Prop :=
  LeafAt docs path ∧ (nodesAt path docs).length = containersAt docs.length path docs

/-- A leaf that every document has. -/
def InEveryDocument (docs : List Node) (path : List Step) : Prop :=
  LeafAt docs path ∧ ∀ doc ∈ docs, nodesAt path [doc] ≠ []

theorem containersAt_concat_elem (path : List Step) (denom : ℕ) (nodes : List Node) :
    containersAt denom (path ++ [.elem]) nodes = countRank 4 (nodesAt path nodes) := by
  induction path generalizing denom nodes with
  | nil => rfl
  | cons step path ih => cases step <;> exact ih _ _

theorem containersAt_concat_key (path : List Step) (name : String) (denom : ℕ)
    (nodes : List Node) :
    containersAt denom (path ++ [.key name]) nodes = countRank 5 (nodesAt path nodes) := by
  induction path generalizing denom nodes with
  | nil => rfl
  | cons step path ih => cases step <;> exact ih _ _

theorem nodesAt_concat_key (path : List Step) (name : String) (nodes : List Node) :
    nodesAt (path ++ [.key name]) nodes = valuesAt name (nodesAt path nodes) := by
  induction path generalizing nodes with
  | nil => rfl
  | cons step path ih => cases step <;> exact ih _

section

variable {field found : FieldNode} {nodes docs : List Node} {denom foundDenom : ℕ}
  {path : List Step}

/-- The field at a position summarizes the nodes there. -/
theorem Summarizes.fieldAt (hsummary : Summarizes field nodes)
    (hfield : Cold.fieldAt path denom field = some (foundDenom, found)) :
    foundDenom = containersAt denom path nodes ∧ Summarizes found (nodesAt path nodes) := by
  induction path generalizing field nodes denom with
  | nil =>
      cases hfield
      exact ⟨rfl, hsummary⟩
  | cons step path ih =>
      cases hsummary with
      | intro present types sorted children elem =>
          cases step with
          | key name =>
              rcases Option.bind_eq_some_iff.mp hfield with ⟨child, hlookup, hbelow⟩
              rw [types] at hbelow
              exact ih (summary_of_part (children name) hlookup) hbelow
          | elem =>
              rcases Option.bind_eq_some_iff.mp hfield with ⟨below, helem, hbelow⟩
              rw [types] at hbelow
              exact ih (summary_of_part elem helem) hbelow

theorem fieldAt_isSome (hsummary : Summarizes field nodes) (hnodes : nodes ≠ []) :
    (Cold.fieldAt path denom field).isSome ↔ nodesAt path nodes ≠ [] := by
  have hpart := viewAt_part_eq_none (.some hnodes hsummary) denom path
  rw [Option.map_some, Option.bind_some, viewAt_view, Option.map_eq_none_iff] at hpart
  rw [← Option.ne_none_iff_isSome]
  exact not_congr hpart

/-- A field has nothing below it if the nodes have nothing below them. -/
theorem isLeaf_iff (hsummary : Summarizes found nodes) :
    isLeaf found ↔ ∀ node ∈ nodes, node.items = [] ∧ ∀ key, node.valueAt key = none := by
  cases hsummary with
  | intro present types sorted children elem =>
      have hchildren : found.children = [] ↔ ∀ node ∈ nodes, ∀ key, node.valueAt key = none := by
        constructor
        · intro hempty node hnode key
          have hpart := children key
          rw [hempty, List.lookup_nil] at hpart
          generalize hvalues : valuesAt key nodes = values at hpart
          cases hpart
          exact List.filterMap_eq_nil_iff.mp hvalues node hnode
        · intro hbare
          apply List.eq_nil_iff_forall_not_mem.mpr
          rintro ⟨key, child⟩ hchild
          have hpart := children key
          rw [sorted.mem_iff.mp hchild,
            show valuesAt key nodes = [] from
              List.filterMap_eq_nil_iff.mpr fun node hnode ↦ hbare node hnode key] at hpart
          cases hpart
          contradiction
      have helem : found.arrayElem = none ↔ ∀ node ∈ nodes, node.items = [] := by
        constructor
        · intro hnone
          rw [hnone] at elem
          generalize hitems : itemsOf nodes = items at elem
          cases elem
          exact List.flatMap_eq_nil_iff.mp hitems
        · intro hbare
          rw [show itemsOf nodes = [] from List.flatMap_eq_nil_iff.mpr hbare] at elem
          generalize hfound : found.arrayElem = part at elem
          cases elem
          · rfl
          · contradiction
      unfold isLeaf
      rw [Bool.and_eq_true, List.isEmpty_iff, Option.isNone_iff_eq_none, hchildren, helem]
      constructor
      · exact fun hboth node hnode ↦ ⟨hboth.2 node hnode, hboth.1 node hnode⟩
      · exact fun hboth ↦
          ⟨fun node hnode ↦ (hboth node hnode).2, fun node hnode ↦ (hboth node hnode).1⟩

/-- A leaf with the counts of the documents. -/
def leafOf (docs : List Node) (path : List Step) : Leaf :=
  ⟨path, containersAt docs.length path docs, (nodesAt path docs).length⟩

/-- The leaves of a profile are those of its documents, with the counts of the documents. -/
theorem mem_leaves_iff (hsummary : Summarizes field docs) (hsorted : field.Sorted)
    (hdocs : docs ≠ []) {leaf : Leaf} :
    leaf ∈ leaves docs.length field ↔
      LeafAt docs leaf.path ∧ leaf.denom = containersAt docs.length leaf.path docs ∧
        leaf.present = (nodesAt leaf.path docs).length := by
  have hpresent {found : FieldNode} {nodes : List Node} (hfound : Summarizes found nodes) :
      found.present = nodes.length := by
    cases hfound
    assumption
  rw [mem_leaves hsorted]
  constructor
  · rintro ⟨found, hfound, hleaf, hcount⟩
    rcases Summarizes.fieldAt hsummary hfound with ⟨hdenom, hbelow⟩
    refine ⟨⟨?_, (isLeaf_iff hbelow).mp hleaf⟩, hdenom, ?_⟩
    · rw [← fieldAt_isSome hsummary hdocs, hfound]
      rfl
    · rw [← hcount, hpresent hbelow]
  · rintro ⟨⟨hobserved, hbare⟩, hdenom, hcount⟩
    rcases Option.isSome_iff_exists.mp ((fieldAt_isSome hsummary hdocs).mpr hobserved) with
      ⟨⟨foundDenom, found⟩, hfound⟩
    rcases Summarizes.fieldAt hsummary hfound with ⟨rfl, hbelow⟩
    refine ⟨found, ?_, (isLeaf_iff hbelow).mpr hbare, ?_⟩
    · rw [hdenom]
      exact hfound
    · rw [hcount, hpresent hbelow]

end

/-! ## The gate -/

/-- The documents of a profile. -/
noncomputable def documents (tree : MergeTree Node) : List Node := tree.values.toList

/-- The profile is the one of the documents, with the fields sorted. -/
theorem profileOfTree_summarizes (tree : MergeTree Node) :
    (profileOfTree tree).count = (documents tree).length ∧
      Summarizes (profileOfTree tree).root (documents tree) ∧ (profileOfTree tree).root.Sorted := by
  have hprofile : profileOf (documents tree) = profileOfTree tree :=
    profileOf_eq_tree (Multiset.coe_toList _).symm
  have hsummary := profileOf_summarizes (documents tree)
  rw [hprofile] at hsummary
  refine ⟨hsummary.1, hsummary.2, ?_⟩
  rw [profileOfTree_eq]
  exact (tree.merged SortedProfile.fromNode).2

section

variable {tree : MergeTree Node}

/-- The leaves the policy counts. -/
theorem coe_requiredLeaves (hdocs : documents tree ≠ []) :
    {path | ∃ leaf ∈ requiredLeaves (leaves (profileOfTree tree).count (profileOfTree tree).root),
      leaf.path = path} = {path | Counted (documents tree) path} := by
  rcases profileOfTree_summarizes tree with ⟨hcount, hsummary, hsorted⟩
  ext path
  unfold requiredLeaves
  simp only [Set.mem_ofPred_eq, List.mem_filter, decide_eq_true_eq, hcount,
    mem_leaves_iff hsummary hsorted hdocs]
  constructor
  · rintro ⟨leaf, ⟨⟨hleaf, hdenom, hpresent⟩, -, hrequired⟩, rfl⟩
    exact ⟨hleaf, by rw [← hpresent, hrequired, hdenom]⟩
  · rintro ⟨hleaf, hcounted⟩
    refine ⟨leafOf (documents tree) path, ⟨⟨hleaf, rfl, rfl⟩, ?_, hcounted⟩, rfl⟩
    unfold leafOf
    exact hcounted ▸ List.length_pos_of_ne_nil hleaf.observed

theorem length_requiredLeaves (hdocs : documents tree ≠ []) :
    (requiredLeaves (leaves (profileOfTree tree).count (profileOfTree tree).root)).length =
      {path | Counted (documents tree) path}.ncard := by
  classical
  rcases profileOfTree_summarizes tree with ⟨-, -, hsorted⟩
  have hnodup : ((requiredLeaves (leaves (profileOfTree tree).count
      (profileOfTree tree).root)).map Leaf.path).Nodup :=
    (nodup_leaves hsorted).sublist (List.filter_sublist.map Leaf.path)
  rw [← coe_requiredLeaves hdocs, ← List.length_map Leaf.path,
    ← List.toFinset_card_of_nodup hnodup, ← Set.ncard_coe_finset]
  congr 1
  ext path
  simp

theorem finite_leaves (tree : MergeTree Node) : {path | LeafAt (documents tree) path}.Finite := by
  rcases profileOfTree_summarizes tree with ⟨-, hsummary, hsorted⟩
  by_cases hdocs : documents tree = []
  · have hempty : {path | LeafAt (documents tree) path} = ∅ := by
      ext path
      refine ⟨fun hleaf ↦ hleaf.observed ?_, False.elim⟩
      rw [hdocs, nodesAt_nil]
    rw [hempty]
    exact Set.finite_empty
  · apply (((leaves (documents tree).length (profileOfTree tree).root).map
      Leaf.path).finite_toSet).subset
    intro path hleaf
    exact List.mem_map.mpr
      ⟨leafOf _ path, (mem_leaves_iff hsummary hsorted hdocs).mpr ⟨hleaf, rfl, rfl⟩, rfl⟩

variable {Stored : Type} {fromValue : Stored → Except String Profile} {value : Stored}

/-- What the gate promises of a stored profile: an accepted candidate has the required number of
leaves in every document, and no leaf is present more often than its containers. -/
structure FieldGateSound (fromValue : Stored → Except String Profile) (value : Stored)
    (tree : MergeTree Node) : Prop where
  accepted : ∀ (policy : AutoPromotePolicy) (record : CandidateRecord Stored) (nowMs : ℤ),
    record.profile = value → policy.eligible fromValue record nowMs = .ok () →
      ∃ paths : Finset (List Step), policy.minRequiredFields ≤ paths.card ∧
        ∀ path ∈ paths, InEveryDocument (documents tree) path
  uncorrupt : ∀ leaf ∈ leaves (profileOfTree tree).count (profileOfTree tree).root,
    leaf.present ≤ leaf.denom

theorem settled_eq_ok {policy : AutoPromotePolicy} {profile : Profile}
    (hsettled : settled policy profile = .ok ()) :
    profile.count ≠ 0 ∧
      policy.minRequiredFields ≤
        (requiredLeaves (leaves profile.count profile.root)).length := by
  unfold settled at hsettled
  rw [countLeaves_eq] at hsettled
  simp only [zero_add] at hsettled
  split_ifs at hsettled with hcount htotal hrequired hratio
  exact ⟨hcount, not_lt.mp hrequired⟩

theorem eligible_eq_ok {policy : AutoPromotePolicy} {record : CandidateRecord Stored} {nowMs : ℤ}
    (heligible : policy.eligible fromValue record nowMs = .ok ()) :
    (PromotionPolicy.mk policy.minSamples policy.minAgeMs).check
        { record with profile := () } nowMs ∧
      ∃ profile, fromValue record.profile = .ok profile ∧ settled policy profile = .ok () := by
  unfold AutoPromotePolicy.eligible at heligible
  split_ifs at heligible with hsamples hage
  refine ⟨?_, ?_⟩
  · rw [PromotionPolicy.check, Bool.and_eq_true, decide_eq_true_eq, decide_eq_true_eq]
    exact ⟨not_lt.mp hsamples, not_lt.mp hage⟩
  · cases hprofile : fromValue record.profile with
    | error error => simp [hprofile] at heligible
    | ok profile => exact ⟨profile, rfl, by simpa [hprofile] using heligible⟩

/-- A policy that asks for the counted leaves and for nothing else accepts. -/
theorem settled_counted {profile : Profile} (hcount : profile.count ≠ 0) :
    settled ⟨0, 0, (requiredLeaves (leaves profile.count profile.root)).length, 0⟩ profile =
      .ok () := by
  have htotal : (leaves profile.count profile.root).length ≠ 0 :=
    fun hzero ↦ leaves_ne_nil _ _ (List.length_eq_zero_iff.mp hzero)
  have hratio : ¬ ((requiredLeaves (leaves profile.count profile.root)).length : ℚ) /
      (leaves profile.count profile.root).length < 0 - 1 / 10 ^ 9 := by
    apply not_lt.mpr
    apply le_trans _ (div_nonneg (Nat.cast_nonneg _) (Nat.cast_nonneg _))
    norm_num
  unfold settled
  rw [countLeaves_eq]
  simp only [zero_add, hcount, htotal, lt_irrefl, hratio, if_false]

/-- What an accepted policy may ask for. -/
theorem accepted_iff (hvalue : fromValue value = .ok (profileOfTree tree)) :
    (∀ (policy : AutoPromotePolicy) (record : CandidateRecord Stored) (nowMs : ℤ),
      record.profile = value → policy.eligible fromValue record nowMs = .ok () →
        ∃ paths : Finset (List Step), policy.minRequiredFields ≤ paths.card ∧
          ∀ path ∈ paths, InEveryDocument (documents tree) path) ↔
      {path | Counted (documents tree) path}.ncard ≤
        {path | InEveryDocument (documents tree) path}.ncard := by
  rcases profileOfTree_summarizes tree with ⟨hcount, -, -⟩
  have hfinite : {path | InEveryDocument (documents tree) path}.Finite :=
    (finite_leaves tree).subset fun path hpath ↦ hpath.1
  constructor
  · intro haccepts
    by_cases hdocs : documents tree = []
    · have hnone : {path | Counted (documents tree) path} = ∅ := by
        ext path
        refine ⟨fun hcounted ↦ hcounted.1.observed ?_, False.elim⟩
        rw [hdocs, nodesAt_nil]
      rw [hnone, Set.ncard_empty]
      exact Nat.zero_le _
    · have hpositive : (profileOfTree tree).count ≠ 0 := by
        rw [hcount]
        exact (List.length_pos_of_ne_nil hdocs).ne'
      have hsettled := settled_counted hpositive
      rw [length_requiredLeaves hdocs] at hsettled
      have heligible : AutoPromotePolicy.eligible fromValue
          ⟨0, 0, {path | Counted (documents tree) path}.ncard, 0⟩
          ⟨.fromDigest (Vector.replicate 32 0), value, 0, 0, 0, .provisional, none⟩ 0 = .ok () := by
        simpa [AutoPromotePolicy.eligible, hvalue] using hsettled
      rcases haccepts _ _ 0 rfl heligible with ⟨paths, hcard, hpaths⟩
      apply hcard.trans
      rw [← Set.ncard_coe_finset]
      exact Set.ncard_le_ncard hpaths hfinite
  · intro hle policy record nowMs hprofile heligible
    rcases (eligible_eq_ok heligible).2 with ⟨profile, hfrom, hsettled⟩
    rw [hprofile, hvalue] at hfrom
    cases hfrom
    rcases settled_eq_ok hsettled with ⟨hpositive, hrequired⟩
    have hdocs : documents tree ≠ [] := by
      intro hempty
      rw [hcount, hempty] at hpositive
      exact hpositive rfl
    rw [length_requiredLeaves hdocs] at hrequired
    refine ⟨hfinite.toFinset, ?_, fun path hpath ↦ by simpa using hpath⟩
    rw [← Set.ncard_eq_toFinset_card _ hfinite]
    exact hrequired.trans hle

/-- Only below an array can a leaf be present more often than its containers. -/
theorem uncorrupt_iff :
    (∀ leaf ∈ leaves (profileOfTree tree).count (profileOfTree tree).root,
      leaf.present ≤ leaf.denom) ↔
      ∀ path, LeafAt (documents tree) (path ++ [.elem]) →
        (nodesAt (path ++ [.elem]) (documents tree)).length ≤
          countRank 4 (nodesAt path (documents tree)) := by
  rcases profileOfTree_summarizes tree with ⟨hcount, hsummary, hsorted⟩
  by_cases hdocs : documents tree = []
  · rw [hdocs] at hsummary hcount ⊢
    have hleaf : isLeaf (profileOfTree tree).root :=
      (isLeaf_iff hsummary).mpr fun _ hnode ↦ nomatch hnode
    rw [leaves_eq, if_pos hleaf]
    cases hsummary with
    | intro present types sorted children elem =>
        refine iff_of_true (fun leaf hmem ↦ ?_) fun path hbelow ↦ absurd (nodesAt_nil _) hbelow.observed
        rw [List.mem_singleton.mp hmem, present]
        exact Nat.zero_le _
  rw [hcount]
  constructor
  · intro huncorrupt path hleaf
    have hle := huncorrupt (leafOf (documents tree) (path ++ [Step.elem]))
      ((mem_leaves_iff hsummary hsorted hdocs).mpr ⟨hleaf, rfl, rfl⟩)
    unfold leafOf at hle
    rwa [containersAt_concat_elem] at hle
  · intro helems leaf hmem
    rcases (mem_leaves_iff hsummary hsorted hdocs).mp hmem with ⟨hleaf, hdenom, hpresent⟩
    rw [hpresent, hdenom]
    rcases List.eq_nil_or_concat' leaf.path with hpath | ⟨parent, step, hpath⟩
    · rw [hpath]
      exact le_rfl
    · rw [hpath] at hleaf ⊢
      cases step with
      | key name =>
          rw [containersAt_concat_key, nodesAt_concat_key, ← length_valuesAt name]
          exact Nat.le_add_right _ _
      | elem =>
          rw [containersAt_concat_elem]
          exact helems parent hleaf

/-- The gate is sound for a profile exactly if no more leaves are counted without being in every
document than are in every document without being counted, and no array position with leaf elements
has more elements than arrays. -/
theorem field_gate_sound_iff (hvalue : fromValue value = .ok (profileOfTree tree)) :
    FieldGateSound fromValue value tree ↔
      {path | Counted (documents tree) path ∧ ¬ InEveryDocument (documents tree) path}.ncard ≤
        {path | InEveryDocument (documents tree) path ∧ ¬ Counted (documents tree) path}.ncard ∧
      ∀ path, LeafAt (documents tree) (path ++ [.elem]) →
        (nodesAt (path ++ [.elem]) (documents tree)).length ≤
          countRank 4 (nodesAt path (documents tree)) := by
  have hcounted : {path | Counted (documents tree) path}.Finite :=
    (finite_leaves tree).subset fun path hpath ↦ hpath.1
  have hevery : {path | InEveryDocument (documents tree) path}.Finite :=
    (finite_leaves tree).subset fun path hpath ↦ hpath.1
  have hdiff := Set.ncard_le_ncard_iff_ncard_sdiff_le_ncard_sdiff hcounted hevery
  constructor
  · rintro ⟨haccepted, huncorrupt⟩
    exact ⟨hdiff.mp ((accepted_iff hvalue).mp haccepted), uncorrupt_iff.mp huncorrupt⟩
  · rintro ⟨hmiscounted, helems⟩
    exact ⟨(accepted_iff hvalue).mpr (hdiff.mpr hmiscounted), uncorrupt_iff.mpr helems⟩

end

/-! ## An optional parent and a longer array -/

/-- Fifty documents, one of them without the object that has both leaves. -/
def optionalParent : MergeTree Node :=
  .node (.leaf (.object []))
    ((List.replicate 49 (Node.object [("a", .object [("x", .number "1"), ("y", .number "2")])])).foldl
      (fun tree doc ↦ .node tree (.leaf doc)) .empty)

def optionalParentCandidate : CandidateRecord Profile :=
  ⟨.fromDigest (Vector.replicate 32 0), profileOfTree optionalParent, 50, 0, 0, .provisional, none⟩

/-- One document with two elements in its only array. -/
def longerArray : MergeTree Node := .leaf (.array [.number "1", .number "2"] false)

/-- A candidate without a leaf in every document is eligible under the default policy, and the leaf
of an array counts as corrupt. -/
theorem field_gate_miscounts :
    AutoPromotePolicy.eligible .ok default optionalParentCandidate (20 * 60 * 1000) = .ok () ∧
      (∀ path, ¬ InEveryDocument (documents optionalParent) path) ∧
      ∃ leaf ∈ leaves (profileOfTree longerArray).count (profileOfTree longerArray).root,
        leaf.denom < leaf.present := by
  refine ⟨by decide +kernel, fun path hevery ↦ ?_, ⟨[.elem], 1, 2⟩, List.mem_singleton_self _,
    by decide⟩
  have hdoc : Node.object [] ∈ documents optionalParent :=
    Multiset.mem_toList.mpr (Multiset.mem_add.mpr (.inl (Multiset.mem_singleton_self _)))
  have hempty := hevery.2 _ hdoc
  cases path with
  | nil =>
      have hother : Node.object [("a", .object [("x", .number "1"), ("y", .number "2")])] ∈
          documents optionalParent :=
        Multiset.mem_toList.mpr (Multiset.mem_add.mpr (.inr (Multiset.mem_add.mpr
          (.inr (Multiset.mem_singleton_self _)))))
      have hbare := (hevery.1.bare _ hother).2 "a"
      cases hbare
  | cons step path => cases step <;> exact hempty (nodesAt_nil path)

theorem field_gate_sound_iff_longer :
    FieldGateSound .ok (profileOfTree longerArray) longerArray ↔
      {path | Counted (documents longerArray) path ∧
          ¬ InEveryDocument (documents longerArray) path}.ncard ≤
        {path | InEveryDocument (documents longerArray) path ∧
          ¬ Counted (documents longerArray) path}.ncard ∧
      ∀ path, LeafAt (documents longerArray) (path ++ [.elem]) →
        (nodesAt (path ++ [.elem]) (documents longerArray)).length ≤
          countRank 4 (nodesAt path (documents longerArray)) :=
  field_gate_sound_iff rfl

end Deblob.Cold
