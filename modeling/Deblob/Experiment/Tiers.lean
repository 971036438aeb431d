import Deblob.Experiment.FamilyPool
import Deblob.Lib.GroupOrder
import Deblob.Retrain.Curation
import Mathlib.Data.Rat.Floor
import Mathlib.Data.String.Basic

/-!
# Evaluation tiers

The cases of an experiment are grouped by the family of their gold schema. The families that begin
last are held out whole, and every other family is cut in time: its earlier cases are for training
and its later ones for testing. A gold schema has one tier. A family of the source has one tier as
long as it shares no structure with another one.
-/

namespace Deblob.Experiment

open Core Lib
open Deblob.Monoid (Profile)
open Retrain (EvalCase Partition)

inductive Tier where
  | inDomainTemporal
  | crossSource
  | crossCorpusOod
deriving DecidableEq

structure TieredCase where
  case : EvalCase
  tier : Tier
  partition : Partition
  familyKey : String
deriving DecidableEq

/-- The families in the order they are first seen, and their cases. -/
structure Grouping where
  familyOrder : List String
  byFamily : List (String × List EvalCase)

def familyKeyOf (pool : FamilyPool) (case : EvalCase) : String :=
  match case.expected.goldSchemaId.bind pool.familyIdOf with
  | some family => family.asStr
  | none => "__no_gold_family__/" ++ case.name

def groupCase (pool : FamilyPool) (grouping : Grouping) (case : EvalCase) : Grouping :=
  let family := familyKeyOf pool case
  { familyOrder :=
      if (grouping.byFamily.lookup family).isSome then grouping.familyOrder
      else grouping.familyOrder ++ [family]
    byFamily := insertWith family [case] (· ++ [case]) grouping.byFamily }

def groupCases (pool : FamilyPool) (cases : List EvalCase) : Grouping :=
  cases.foldl (groupCase pool) ⟨[], []⟩

def Grouping.casesOf (grouping : Grouping) (family : String) : List EvalCase :=
  (grouping.byFamily.lookup family).getD []

section

variable (orderKeyOf : EvalCase → String)

def earliestKey (cases : List EvalCase) : String := (cases.map orderKeyOf).min?.getD ""

/-- Families by their earliest case; of equal ones by their key. -/
def Grouping.families (grouping : Grouping) : List String :=
  sortOn (fun family ↦ toLex (earliestKey orderKeyOf (grouping.casesOf family), family))
    grouping.familyOrder

/-- The last families are held out. -/
def crossSourceKeys (families : List String) (crossSourceFamilyFraction : ℚ) : List String :=
  families.reverse.take (min ⌊families.length * crossSourceFamilyFraction⌋₊ families.length)

/-- A family that is not held out is cut in time. -/
def splitFamily (inDomainTrainFraction : ℚ) (family : String) (cases : List EvalCase) :
    List TieredCase :=
  let trainCount := min ⌈cases.length * inDomainTrainFraction⌉₊ cases.length
  (sortOn orderKeyOf cases).zipIdx.map fun (case, rank) ↦
    ⟨case, .inDomainTemporal, if rank < trainCount then .train else .test, family⟩

def holdOutFamily (family : String) (cases : List EvalCase) : List TieredCase :=
  cases.map fun case ↦ ⟨case, .crossSource, .test, family⟩

def assignTiers (pool : FamilyPool) (crossSourceFamilyFraction inDomainTrainFraction : ℚ)
    (cases : List EvalCase) : List TieredCase :=
  let grouping := groupCases pool cases
  let families := grouping.families orderKeyOf
  let crossSource := crossSourceKeys families crossSourceFamilyFraction
  families.flatMap fun family ↦
    if family ∈ crossSource then holdOutFamily family (grouping.casesOf family)
    else splitFamily orderKeyOf inDomainTrainFraction family (grouping.casesOf family)

/-! ## Groups -/

/-- The cases whose gold schema is of the family. -/
def casesIn (pool : FamilyPool) (cases : List EvalCase) (family : String) : List EvalCase :=
  cases.filter fun case ↦ familyKeyOf pool case = family

/-- What grouping leaves: every family once, with its cases. -/
structure GroupingInv (pool : FamilyPool) (cases : List EvalCase) (grouping : Grouping) : Prop where
  byFamily : grouping.byFamily = groupOn (familyKeyOf pool) cases
  nodup : grouping.familyOrder.Nodup
  mem : ∀ family, family ∈ grouping.familyOrder ↔ ∃ case ∈ cases, familyKeyOf pool case = family

variable {orderKeyOf} {pool : FamilyPool} {cases : List EvalCase}

theorem lookup_groupOn_isSome (pool : FamilyPool) (cases : List EvalCase) (family : String) :
    ((groupOn (familyKeyOf pool) cases).lookup family).isSome ↔
      ∃ case ∈ cases, familyKeyOf pool case = family := by
  rw [lookup_groupOn]
  split_ifs with hempty
  · refine iff_of_false (by simp) fun ⟨case, hcase, hfamily⟩ ↦ ?_
    exact absurd hempty (List.ne_nil_of_mem (List.mem_filter.mpr ⟨hcase, decide_eq_true hfamily⟩))
  · rcases List.exists_mem_of_ne_nil _ hempty with ⟨case, hcase⟩
    rw [List.mem_filter, decide_eq_true_eq] at hcase
    exact iff_of_true rfl ⟨case, hcase⟩

theorem groupingInv_groupCases (pool : FamilyPool) (cases : List EvalCase) :
    GroupingInv pool cases (groupCases pool cases) := by
  induction cases using List.reverseRecOn with
  | nil => exact ⟨rfl, List.nodup_nil, by simp [groupCases]⟩
  | append_singleton cases case ih =>
      have hseen := lookup_groupOn_isSome pool cases (familyKeyOf pool case)
      rw [groupCases, List.foldl_append, List.foldl_cons, List.foldl_nil, ← groupCases]
      refine ⟨?_, ?_, fun family ↦ ?_⟩
      · rw [groupOn_concat, ← ih.byFamily]
        rfl
      · unfold groupCase
        dsimp only
        rw [ih.byFamily]
        split_ifs with hsome
        · exact ih.nodup
        · refine List.Nodup.append ih.nodup (List.nodup_singleton _) ?_
          rw [List.disjoint_singleton, ih.mem, ← hseen]
          exact hsome
      · unfold groupCase
        dsimp only
        rw [ih.byFamily]
        simp only [List.mem_append, List.mem_singleton, or_and_right, exists_or, exists_eq_left]
        split_ifs with hsome
        · rw [ih.mem]
          refine ⟨.inl, fun hfound ↦ hfound.elim id fun hlast ↦ ?_⟩
          exact hlast ▸ hseen.mp hsome
        · rw [List.mem_append, ih.mem, List.mem_singleton, eq_comm]

theorem casesOf_groupCases (pool : FamilyPool) (cases : List EvalCase) (family : String) :
    (groupCases pool cases).casesOf family = casesIn pool cases family := by
  rw [Grouping.casesOf, (groupingInv_groupCases pool cases).byFamily, lookup_groupOn]
  unfold casesIn
  split_ifs with hempty
  · exact hempty.symm
  · rfl

theorem casesIn_perm {others : List EvalCase} (hperm : cases.Perm others) (family : String) :
    (casesIn pool cases family).Perm (casesIn pool others family) :=
  hperm.filter _

/-! ## Families -/

variable (orderKeyOf) (pool) (cases)

/-- The families of the cases in the order in which they are assigned. -/
def sortedFamilies : List String := (groupCases pool cases).families orderKeyOf

theorem sortedFamilies_perm : (sortedFamilies orderKeyOf pool cases).Perm
    (groupCases pool cases).familyOrder :=
  sortOn_perm _ _

theorem nodup_sortedFamilies : (sortedFamilies orderKeyOf pool cases).Nodup :=
  (sortedFamilies_perm orderKeyOf pool cases).nodup_iff.mpr
    (groupingInv_groupCases pool cases).nodup

theorem mem_sortedFamilies {family : String} :
    family ∈ sortedFamilies orderKeyOf pool cases ↔
      ∃ case ∈ cases, familyKeyOf pool case = family := by
  rw [(sortedFamilies_perm orderKeyOf pool cases).mem_iff, (groupingInv_groupCases pool cases).mem]

/-- The families do not depend on the order of the cases. -/
theorem sortedFamilies_eq_of_perm {others : List EvalCase} (hperm : cases.Perm others) :
    sortedFamilies orderKeyOf pool cases = sortedFamilies orderKeyOf pool others := by
  have hearliest (family : String) :
      earliestKey orderKeyOf ((groupCases pool cases).casesOf family) =
        earliestKey orderKeyOf ((groupCases pool others).casesOf family) := by
    rw [casesOf_groupCases, casesOf_groupCases, earliestKey, earliestKey]
    exact congrArg (·.getD "") (min?_eq_of_perm ((casesIn_perm hperm family).map orderKeyOf))
  have horder : (groupCases pool cases).familyOrder.Perm
      (groupCases pool others).familyOrder := by
    have hleft := groupingInv_groupCases pool cases
    have hright := groupingInv_groupCases pool others
    refine (List.perm_ext_iff_of_nodup hleft.nodup hright.nodup).mpr fun family ↦ ?_
    rw [hleft.mem, hright.mem]
    simp only [hperm.mem_iff]
  unfold sortedFamilies Grouping.families
  simp only [hearliest]
  refine sortOn_eq_of_perm horder ?_
  refine (groupingInv_groupCases pool cases).nodup.imp fun hne heq ↦ hne ?_
  exact congrArg (fun key ↦ (ofLex key).2) heq

/-! ## Tiers -/

variable (crossFraction trainFraction : ℚ)

/-- The families that are held out. -/
def heldOut : List String := crossSourceKeys (sortedFamilies orderKeyOf pool cases) crossFraction

def tierOf (family : String) : Tier :=
  if family ∈ heldOut orderKeyOf pool cases crossFraction then .crossSource else .inDomainTemporal

/-- The cases of one family with their tier. -/
def assignFamily (family : String) : List TieredCase :=
  if family ∈ heldOut orderKeyOf pool cases crossFraction then
    holdOutFamily family (casesIn pool cases family)
  else splitFamily orderKeyOf trainFraction family (casesIn pool cases family)

theorem assignTiers_eq : assignTiers orderKeyOf pool crossFraction trainFraction cases =
    (sortedFamilies orderKeyOf pool cases).flatMap
      (assignFamily orderKeyOf pool cases crossFraction trainFraction) := by
  unfold assignTiers
  simp only [casesOf_groupCases]
  rfl

variable {orderKeyOf pool cases crossFraction trainFraction}

theorem map_case_splitFamily (family : String) (cases : List EvalCase) :
    (splitFamily orderKeyOf trainFraction family cases).map (·.case) = sortOn orderKeyOf cases := by
  unfold splitFamily
  dsimp only
  rw [List.map_map]
  exact List.zipIdx_map_fst 0 (sortOn orderKeyOf cases)

theorem map_case_assignFamily_perm (family : String) :
    ((assignFamily orderKeyOf pool cases crossFraction trainFraction family).map (·.case)).Perm
      (casesIn pool cases family) := by
  unfold assignFamily
  split_ifs
  · rw [holdOutFamily, List.map_map]
    exact .of_eq (List.map_id _)
  · rw [map_case_splitFamily]
    exact sortOn_perm orderKeyOf _

theorem tier_of_mem_assignFamily {family : String} {tiered : TieredCase} (htiered : tiered ∈
    assignFamily orderKeyOf pool cases crossFraction trainFraction family) :
    tiered.familyKey = family ∧ tiered.tier = tierOf orderKeyOf pool cases crossFraction family ∧
      (tiered.partition = .train → tiered.tier = .inDomainTemporal) := by
  unfold assignFamily at htiered
  unfold tierOf
  split_ifs at htiered ⊢
  · rcases List.mem_map.mp htiered with ⟨case, _, rfl⟩
    exact ⟨rfl, rfl, nofun⟩
  · rcases List.mem_map.mp htiered with ⟨case, _, rfl⟩
    exact ⟨rfl, rfl, fun _ ↦ rfl⟩

/-- The cut of a family respects time. -/
theorem orderKey_le_of_mem_splitFamily {family : String} {cases : List EvalCase}
    {train test : TieredCase}
    (htrain : train ∈ splitFamily orderKeyOf trainFraction family cases)
    (htest : test ∈ splitFamily orderKeyOf trainFraction family cases)
    (hleft : train.partition = .train) (hright : test.partition = .test) :
    orderKeyOf train.case ≤ orderKeyOf test.case := by
  rcases List.mem_map.mp htrain with ⟨⟨left, early⟩, hearly, rfl⟩
  rcases List.mem_map.mp htest with ⟨⟨right, late⟩, hlate, rfl⟩
  rw [List.mk_mem_zipIdx_iff_getElem?, List.getElem?_eq_some_iff] at hearly hlate
  rcases hearly with ⟨hearly, rfl⟩
  rcases hlate with ⟨hlate, rfl⟩
  have hbefore : early < late := by
    dsimp only at hleft hright
    split_ifs at hleft hright with hcut hrest
    omega
  exact List.pairwise_iff_getElem.mp (pairwise_sortOn orderKeyOf cases) early late hearly hlate
    hbefore

theorem orderKey_le_of_mem_assignFamily {family : String} {train test : TieredCase}
    (htrain : train ∈ assignFamily orderKeyOf pool cases crossFraction trainFraction family)
    (htest : test ∈ assignFamily orderKeyOf pool cases crossFraction trainFraction family)
    (hleft : train.partition = .train) (hright : test.partition = .test) :
    orderKeyOf train.case ≤ orderKeyOf test.case := by
  unfold assignFamily at htrain htest
  split_ifs at htrain htest
  · rcases List.mem_map.mp htrain with ⟨case, _, rfl⟩
    cases hleft
  · exact orderKey_le_of_mem_splitFamily htrain htest hleft hright

/-- An assigned case is assigned with the cases of its family. -/
theorem mem_assignFamily_of_mem {tiered : TieredCase}
    (htiered : tiered ∈ assignTiers orderKeyOf pool crossFraction trainFraction cases) :
    tiered ∈ assignFamily orderKeyOf pool cases crossFraction trainFraction tiered.familyKey ∧
      tiered.familyKey = familyKeyOf pool tiered.case := by
  rw [assignTiers_eq, List.mem_flatMap] at htiered
  rcases htiered with ⟨family, _, hmem⟩
  have hkey := (tier_of_mem_assignFamily hmem).1
  have hcase := (map_case_assignFamily_perm family).mem_iff.mp (List.mem_map_of_mem hmem)
  have hfamily : familyKeyOf pool tiered.case = family := by
    simpa using (List.mem_filter.mp hcase).2
  rw [hkey, hfamily]
  exact ⟨hmem, rfl⟩

/-- Every case is assigned once. -/
theorem map_case_assignTiers_perm :
    ((assignTiers orderKeyOf pool crossFraction trainFraction cases).map (·.case)).Perm cases := by
  rw [assignTiers_eq, List.map_flatMap]
  refine (List.Perm.flatMap_left _ fun family _ ↦ map_case_assignFamily_perm family).trans ?_
  exact flatMap_filter_perm (nodup_sortedFamilies orderKeyOf pool cases) fun family ↦
    mem_sortedFamilies orderKeyOf pool cases

/-! ## The order of the cases -/

/-- What is told of a tiered case without naming the case. -/
def TieredCase.view (orderKeyOf : EvalCase → String) (tiered : TieredCase) :
    String × Tier × Partition × String :=
  (tiered.familyKey, tiered.tier, tiered.partition, orderKeyOf tiered.case)

def TieredCase.isInDomain (tiered : TieredCase) : Bool := tiered.tier = .inDomainTemporal

/-- The in-domain cases, as they are told of. -/
def inDomainViews (orderKeyOf : EvalCase → String) (assigned : List TieredCase) :
    List (String × Tier × Partition × String) :=
  (assigned.filter TieredCase.isInDomain).map (TieredCase.view orderKeyOf)

theorem heldOut_eq_of_perm {others : List EvalCase} (hperm : cases.Perm others) :
    heldOut orderKeyOf pool cases crossFraction = heldOut orderKeyOf pool others crossFraction := by
  rw [heldOut, heldOut, sortedFamilies_eq_of_perm orderKeyOf pool cases hperm]

/-- The cut of a family sees the keys of its cases only. -/
theorem map_view_splitFamily_of_perm {cases others : List EvalCase} (hperm : cases.Perm others)
    (family : String) :
    (splitFamily orderKeyOf trainFraction family cases).map (TieredCase.view orderKeyOf) =
      (splitFamily orderKeyOf trainFraction family others).map (TieredCase.view orderKeyOf) := by
  have hkeys : (sortOn orderKeyOf cases).map orderKeyOf =
      (sortOn orderKeyOf others).map orderKeyOf := map_sortOn_eq_of_perm hperm
  have hview (cases : List EvalCase) (count : ℕ) :
      ((sortOn orderKeyOf cases).zipIdx.map fun entry ↦
          TieredCase.view orderKeyOf ⟨entry.1, .inDomainTemporal,
            if entry.2 < count then .train else .test, family⟩) =
        ((sortOn orderKeyOf cases).map orderKeyOf).zipIdx.map fun entry ↦
          (family, .inDomainTemporal, if entry.2 < count then .train else .test, entry.1) := by
    rw [List.zipIdx_map, List.map_map]
    rfl
  unfold splitFamily
  dsimp only
  rw [List.map_map, List.map_map, hperm.length_eq]
  refine (hview cases _).trans ?_
  rw [hkeys]
  exact (hview others _).symm

theorem map_view_assignFamily_perm {others : List EvalCase} (hperm : cases.Perm others)
    (family : String) :
    ((assignFamily orderKeyOf pool cases crossFraction trainFraction family).map
        (TieredCase.view orderKeyOf)).Perm
      ((assignFamily orderKeyOf pool others crossFraction trainFraction family).map
        (TieredCase.view orderKeyOf)) := by
  unfold assignFamily
  rw [heldOut_eq_of_perm hperm]
  split_ifs
  · exact ((casesIn_perm hperm family).map _).map _
  · exact .of_eq (map_view_splitFamily_of_perm (casesIn_perm hperm family) family)

theorem inDomainViews_assignFamily {others : List EvalCase} (hperm : cases.Perm others)
    (family : String) :
    inDomainViews orderKeyOf (assignFamily orderKeyOf pool cases crossFraction trainFraction
        family) =
      inDomainViews orderKeyOf (assignFamily orderKeyOf pool others crossFraction trainFraction
        family) := by
  have hout (cases : List EvalCase) :
      (holdOutFamily family cases).filter TieredCase.isInDomain = [] := by
    refine List.filter_eq_nil_iff.mpr fun tiered htiered ↦ ?_
    rcases List.mem_map.mp htiered with ⟨case, _, rfl⟩
    exact Bool.false_ne_true
  have hin (cases : List EvalCase) :
      (splitFamily orderKeyOf trainFraction family cases).filter TieredCase.isInDomain =
        splitFamily orderKeyOf trainFraction family cases := by
    refine List.filter_eq_self.mpr fun tiered htiered ↦ ?_
    rcases List.mem_map.mp htiered with ⟨case, _, rfl⟩
    rfl
  unfold inDomainViews assignFamily
  rw [heldOut_eq_of_perm hperm]
  split_ifs
  · rw [hout, hout]
  · rw [hin, hin, map_view_splitFamily_of_perm (casesIn_perm hperm family)]

theorem map_view_assignTiers_perm {others : List EvalCase} (hperm : cases.Perm others) :
    ((assignTiers orderKeyOf pool crossFraction trainFraction cases).map
        (TieredCase.view orderKeyOf)).Perm
      ((assignTiers orderKeyOf pool crossFraction trainFraction others).map
        (TieredCase.view orderKeyOf)) := by
  rw [assignTiers_eq, assignTiers_eq, List.map_flatMap, List.map_flatMap,
    sortedFamilies_eq_of_perm orderKeyOf pool cases hperm]
  exact List.Perm.flatMap_left _ fun family _ ↦ map_view_assignFamily_perm hperm family

theorem inDomainViews_assignTiers {others : List EvalCase} (hperm : cases.Perm others) :
    inDomainViews orderKeyOf (assignTiers orderKeyOf pool crossFraction trainFraction cases) =
      inDomainViews orderKeyOf
        (assignTiers orderKeyOf pool crossFraction trainFraction others) := by
  have hfamily (family : String) :
      inDomainViews orderKeyOf (assignFamily orderKeyOf pool cases crossFraction trainFraction
          family) =
        inDomainViews orderKeyOf (assignFamily orderKeyOf pool others crossFraction trainFraction
          family) :=
    inDomainViews_assignFamily hperm family
  unfold inDomainViews at hfamily ⊢
  rw [assignTiers_eq, assignTiers_eq, List.filter_flatMap, List.filter_flatMap, List.map_flatMap,
    List.map_flatMap, sortedFamilies_eq_of_perm orderKeyOf pool cases hperm]
  exact List.flatMap_congr fun family _ ↦ hfamily family

end

/-! ## Leaks -/

section

variable {sha256 : Bytes → Digest} {members : List FamilyMember}

/-- A case is built from a member of the pool: its gold schema is the schema of the member. -/
def BuiltFrom (sha256 : Bytes → Digest) (members : List FamilyMember)
    (built : List (EvalCase × FamilyMember)) : Prop :=
  ∀ pair ∈ built, pair.2 ∈ members ∧
    pair.1.expected.goldSchemaId = some (schemaIdOf sha256 pair.2.profile)

/-- The structures of the family are those of no other one. -/
def Unshared (sha256 : Bytes → Digest) (members : List FamilyMember) (familyName : String) : Prop :=
  ∀ left ∈ members, left.familyName = familyName → ∀ right ∈ members,
    schemaIdOf sha256 right.profile = schemaIdOf sha256 left.profile →
      right.familyName = familyName

theorem familyKeyOf_congr {pool : FamilyPool} {left right : EvalCase}
    (hgold : left.expected.goldSchemaId = right.expected.goldSchemaId)
    (hfound : (left.expected.goldSchemaId.bind pool.familyIdOf).isSome) :
    familyKeyOf pool left = familyKeyOf pool right := by
  rcases Option.isSome_iff_exists.mp hfound with ⟨family, hfamily⟩
  unfold familyKeyOf
  rw [← hgold, hfamily]

theorem familyKeyOf_of_unshared {case : EvalCase} {member : FamilyMember}
    (hmember : member ∈ members)
    (hgold : case.expected.goldSchemaId = some (schemaIdOf sha256 member.profile))
    (hunshared : Unshared sha256 members member.familyName) :
    familyKeyOf (buildFamilyPool sha256 members) case =
      (deterministicFamilyId sha256 member.familyName).asStr := by
  rcases familyIdOf_buildFamilyPool hmember with ⟨owner, howner, hschema, hfound⟩
  unfold familyKeyOf
  rw [hgold, Option.bind_some, hfound, hunshared member hmember rfl owner howner hschema]

theorem goldFamily_isSome {built : List (EvalCase × FamilyMember)}
    (hbuilt : BuiltFrom sha256 members built) {case : EvalCase}
    (hcase : case ∈ built.map Prod.fst) :
    (case.expected.goldSchemaId.bind (buildFamilyPool sha256 members).familyIdOf).isSome := by
  rcases List.mem_map.mp hcase with ⟨pair, hpair, rfl⟩
  rcases hbuilt pair hpair with ⟨hmember, hgold⟩
  rcases familyIdOf_buildFamilyPool hmember with ⟨owner, _, _, hfound⟩
  rw [hgold, Option.bind_some, hfound]
  rfl

theorem exists_mem_assignTiers (orderKeyOf : EvalCase → String) (pool : FamilyPool)
    (crossFraction trainFraction : ℚ) {cases : List EvalCase} {case : EvalCase}
    (hcase : case ∈ cases) :
    ∃ tiered ∈ assignTiers orderKeyOf pool crossFraction trainFraction cases,
      tiered.case = case ∧
        tiered.tier = tierOf orderKeyOf pool cases crossFraction (familyKeyOf pool case) := by
  have hmem : case ∈ (assignTiers orderKeyOf pool crossFraction trainFraction cases).map (·.case) :=
    map_case_assignTiers_perm.mem_iff.mpr hcase
  rcases List.mem_map.mp hmem with ⟨tiered, htiered, rfl⟩
  rcases mem_assignFamily_of_mem htiered with ⟨hfamily, hkey⟩
  exact ⟨tiered, htiered, rfl, hkey ▸ (tier_of_mem_assignFamily hfamily).2.1⟩

/-- A single family is cut in time unless all families are held out. -/
theorem assignTiers_of_family {orderKeyOf : EvalCase → String} {pool : FamilyPool}
    {crossFraction trainFraction : ℚ} {cases : List EvalCase} {family : String}
    (hne : cases ≠ []) (hfamily : ∀ case ∈ cases, familyKeyOf pool case = family)
    (hfraction : crossFraction < 1) :
    assignTiers orderKeyOf pool crossFraction trainFraction cases =
      splitFamily orderKeyOf trainFraction family cases := by
  have hsorted : sortedFamilies orderKeyOf pool cases = [family] := by
    refine List.perm_singleton.mp ((List.perm_ext_iff_of_nodup
      (nodup_sortedFamilies orderKeyOf pool cases) (List.nodup_singleton family)).mpr fun key ↦ ?_)
    rw [mem_sortedFamilies, List.mem_singleton]
    rcases List.exists_mem_of_ne_nil cases hne with ⟨first, hfirst⟩
    constructor
    · rintro ⟨case, hcase, rfl⟩
      exact hfamily case hcase
    · rintro rfl
      exact ⟨first, hfirst, hfamily first hfirst⟩
  have hheld : heldOut orderKeyOf pool cases crossFraction = [] := by
    rw [heldOut, hsorted, crossSourceKeys, List.length_singleton, Nat.cast_one, one_mul,
      Nat.floor_eq_zero.mpr hfraction]
    rfl
  have hcases : casesIn pool cases family = cases :=
    List.filter_eq_self.mpr fun case hcase ↦ decide_eq_true (hfamily case hcase)
  rw [assignTiers_eq, hsorted, List.flatMap_singleton, assignFamily, hheld,
    if_neg List.not_mem_nil, hcases]

/-- Cases of one key have one tier. -/
theorem tier_eq_of_familyKey {orderKeyOf : EvalCase → String} {pool : FamilyPool}
    {crossFraction trainFraction : ℚ} {cases : List EvalCase} {left right : TieredCase}
    (hleft : left ∈ assignTiers orderKeyOf pool crossFraction trainFraction cases)
    (hright : right ∈ assignTiers orderKeyOf pool crossFraction trainFraction cases)
    (hkey : left.familyKey = right.familyKey) : left.tier = right.tier := by
  rw [(tier_of_mem_assignFamily (mem_assignFamily_of_mem hleft).1).2.1,
    (tier_of_mem_assignFamily (mem_assignFamily_of_mem hright).1).2.1, hkey]

/-- Every case has a tier, a family and a gold schema have one, training is earlier than testing,
and the order of the cases does not matter. -/
theorem assignTiers_leakFree (sha256 : Bytes → Digest) (members : List FamilyMember)
    (built : List (EvalCase × FamilyMember)) (hbuilt : BuiltFrom sha256 members built)
    (orderKeyOf : EvalCase → String) (crossFraction trainFraction : ℚ)
    (assigned : List TieredCase) (hassigned : assigned = assignTiers orderKeyOf
      (buildFamilyPool sha256 members) crossFraction trainFraction (built.map Prod.fst)) :
    (assigned.map (·.case)).Perm (built.map Prod.fst) ∧
      (∀ left ∈ assigned, ∀ right ∈ assigned,
        left.case.expected.goldSchemaId = right.case.expected.goldSchemaId →
          left.familyKey = right.familyKey) ∧
      (∀ left ∈ built, ∀ right ∈ built, left.2.familyName = right.2.familyName →
        Unshared sha256 members left.2.familyName →
          ∀ early ∈ assigned, ∀ late ∈ assigned, early.case = left.1 → late.case = right.1 →
            early.familyKey = late.familyKey ∧ early.tier = late.tier) ∧
      (∀ left ∈ assigned, ∀ right ∈ assigned, left.familyKey = right.familyKey →
        left.tier = right.tier) ∧
      (∀ train ∈ assigned, train.partition = .train → train.tier = .inDomainTemporal) ∧
      (∀ train ∈ assigned, ∀ test ∈ assigned, train.familyKey = test.familyKey →
        train.partition = .train → test.partition = .test →
          orderKeyOf train.case ≤ orderKeyOf test.case) ∧
      ∀ others : List EvalCase, (built.map Prod.fst).Perm others →
        (assigned.map (TieredCase.view orderKeyOf)).Perm
            ((assignTiers orderKeyOf (buildFamilyPool sha256 members) crossFraction trainFraction
              others).map (TieredCase.view orderKeyOf)) ∧
          inDomainViews orderKeyOf assigned =
            inDomainViews orderKeyOf (assignTiers orderKeyOf (buildFamilyPool sha256 members)
              crossFraction trainFraction others) := by
  subst hassigned
  refine ⟨map_case_assignTiers_perm, fun left hleft right hright hgold ↦ ?_,
    fun left hleft right hright hname hunshared early hearly late hlate hfirst hsecond ↦ ?_,
    fun left hleft right hright ↦ tier_eq_of_familyKey hleft hright, fun train htrain ↦ ?_,
    fun train htrain test htest hkey ↦ ?_, fun others hperm ↦ ?_⟩
  · have hcase := map_case_assignTiers_perm.mem_iff.mp (List.mem_map_of_mem hleft)
    rw [(mem_assignFamily_of_mem hleft).2, (mem_assignFamily_of_mem hright).2]
    exact familyKeyOf_congr hgold (goldFamily_isSome hbuilt hcase)
  · have hkey : early.familyKey = late.familyKey := by
      rcases hbuilt left hleft with ⟨hmember, hgold⟩
      rcases hbuilt right hright with ⟨hother, hsame⟩
      rw [(mem_assignFamily_of_mem hearly).2, (mem_assignFamily_of_mem hlate).2, hfirst, hsecond,
        familyKeyOf_of_unshared hmember hgold hunshared,
        familyKeyOf_of_unshared hother hsame (hname ▸ hunshared), hname]
    exact ⟨hkey, tier_eq_of_familyKey hearly hlate hkey⟩
  · exact (tier_of_mem_assignFamily (mem_assignFamily_of_mem htrain).1).2.2
  · have hother := (mem_assignFamily_of_mem htest).1
    rw [← hkey] at hother
    exact orderKey_le_of_mem_assignFamily (mem_assignFamily_of_mem htrain).1 hother
  · exact ⟨map_view_assignTiers_perm hperm, inDomainViews_assignTiers hperm⟩

/-! ## Runs -/

/-- A digest that tells texts of different lengths apart. -/
def lengthDigest (bytes : Bytes) : Digest := Vector.replicate 32 (UInt8.ofNat bytes.length)

/-- The profile of a record that has one field. -/
def eventProfile (field : String) : Profile := .fromNode (.object [(field, .null)])

def eventMember (familyName orderKey field : String) : FamilyMember :=
  ⟨familyName, orderKey, eventProfile field⟩

def eventCase (name field : String) : EvalCase where
  name := name
  category := .knownExact
  candidate := .fromProfile id (eventProfile field)
  retrieved := []
  expected := ⟨.newCandidate .structural, some (schemaIdOf lengthDigest (eventProfile field)), none,
    false, false⟩
  partition := .test

def builtCase (orderKey field familyName : String) : EvalCase × FamilyMember :=
  (eventCase orderKey field, eventMember familyName orderKey field)

/-- Two records of one family and one structure. -/
def pushMembers : List FamilyMember := [eventMember "push" "1" "ref", eventMember "push" "2" "ref"]

def pushCases : List (EvalCase × FamilyMember) :=
  [builtCase "1" "ref" "push", builtCase "2" "ref" "push"]

theorem builtFrom_pushCases : BuiltFrom lengthDigest pushMembers pushCases := by
  intro pair hpair
  rcases List.mem_pair.mp hpair with rfl | rfl
  · exact ⟨List.mem_cons_self, rfl⟩
  · exact ⟨List.mem_cons_of_mem _ List.mem_cons_self, rfl⟩

/-- Of the two records of the family the later one is for testing. -/
theorem assignTiers_pushCases : assignTiers EvalCase.name (buildFamilyPool lengthDigest pushMembers)
    0 (1 / 2) (pushCases.map Prod.fst) =
      [⟨eventCase "1" "ref", .inDomainTemporal, .train,
          familyKeyOf (buildFamilyPool lengthDigest pushMembers) (eventCase "1" "ref")⟩,
        ⟨eventCase "2" "ref", .inDomainTemporal, .test,
          familyKeyOf (buildFamilyPool lengthDigest pushMembers) (eventCase "1" "ref")⟩] := by
  have hfamily : ∀ case ∈ pushCases.map Prod.fst,
      familyKeyOf (buildFamilyPool lengthDigest pushMembers) case =
        familyKeyOf (buildFamilyPool lengthDigest pushMembers) (eventCase "1" "ref") := by
    intro case hcase
    refine familyKeyOf_congr ?_ (goldFamily_isSome builtFrom_pushCases hcase)
    rcases List.mem_pair.mp hcase with rfl | rfl
    · rfl
    · rfl
  have hsorted : sortOn EvalCase.name (pushCases.map Prod.fst) = pushCases.map Prod.fst :=
    sortOn_of_pairwise (by decide +kernel)
  rw [assignTiers_of_family (by decide +kernel) hfamily (by norm_num), splitFamily, hsorted]
  have hcount : min ⌈((pushCases.map Prod.fst).length : ℚ) * (1 / 2)⌉₊
      (pushCases.map Prod.fst).length = 1 := by decide +kernel
  rw [hcount]
  rfl

theorem assignTiers_leakFree_push :
    ((assignTiers EvalCase.name (buildFamilyPool lengthDigest pushMembers) 0 (1 / 2)
      [eventCase "1" "ref", eventCase "2" "ref"]).map (·.case)).Perm
        [eventCase "1" "ref", eventCase "2" "ref"] :=
  (assignTiers_leakFree lengthDigest pushMembers pushCases builtFrom_pushCases EvalCase.name 0
    (1 / 2) _ rfl).1

/-- A structure of two families, and another one of the second family. -/
def releaseMembers : List FamilyMember :=
  [eventMember "fork" "1" "ref", eventMember "release" "1" "ref",
    eventMember "release" "2" "zip_url"]

def releaseCases : List (EvalCase × FamilyMember) :=
  [builtCase "1" "ref" "release", builtCase "2" "zip_url" "release"]

def releasePool : FamilyPool :=
  (releaseMembers.foldl (poolMember lengthDigest) ⟨⟨[], []⟩, fun _ ↦ 0⟩).pool

theorem buildFamilyPool_releaseMembers :
    buildFamilyPool lengthDigest releaseMembers = releasePool := by
  rw [buildFamilyPool, sortOn_of_pairwise (by decide +kernel), releasePool]

theorem builtFrom_releaseCases : BuiltFrom lengthDigest releaseMembers releaseCases := by
  intro pair hpair
  rcases List.mem_pair.mp hpair with rfl | rfl
  · exact ⟨List.mem_cons_of_mem _ List.mem_cons_self, rfl⟩
  · exact ⟨List.mem_cons_of_mem _ (List.mem_cons_of_mem _ List.mem_cons_self), rfl⟩

theorem heldOut_releaseCases :
    heldOut EvalCase.name releasePool (releaseCases.map Prod.fst) (1 / 2) =
      [familyKeyOf releasePool (eventCase "2" "zip_url")] := by
  rw [heldOut, sortedFamilies, Grouping.families, sortOn_of_pairwise (by decide +kernel)]
  decide +kernel

/-- A gold schema of a training and a test case, and a family of a source in two tiers. -/
theorem assignTiers_leaks :
    (BuiltFrom lengthDigest pushMembers pushCases ∧
      ∃ train ∈ assignTiers EvalCase.name (buildFamilyPool lengthDigest pushMembers) 0 (1 / 2)
          (pushCases.map Prod.fst),
        ∃ test ∈ assignTiers EvalCase.name (buildFamilyPool lengthDigest pushMembers) 0 (1 / 2)
            (pushCases.map Prod.fst),
          train.partition = .train ∧ test.partition = .test ∧
            train.case.expected.goldSchemaId = test.case.expected.goldSchemaId) ∧
    BuiltFrom lengthDigest releaseMembers releaseCases ∧
      ∃ left ∈ releaseCases, ∃ right ∈ releaseCases, left.2.familyName = right.2.familyName ∧
        ∃ early ∈ assignTiers EvalCase.name (buildFamilyPool lengthDigest releaseMembers) (1 / 2)
            (1 / 2) (releaseCases.map Prod.fst),
          ∃ late ∈ assignTiers EvalCase.name (buildFamilyPool lengthDigest releaseMembers) (1 / 2)
              (1 / 2) (releaseCases.map Prod.fst),
            early.case = left.1 ∧ late.case = right.1 ∧ early.tier ≠ late.tier := by
  refine ⟨⟨builtFrom_pushCases, ?_⟩, builtFrom_releaseCases, ?_⟩
  · rw [assignTiers_pushCases]
    exact ⟨_, List.mem_cons_self, _, List.mem_cons_of_mem _ List.mem_cons_self, rfl, rfl, rfl⟩
  · rw [buildFamilyPool_releaseMembers]
    have hleft : eventCase "1" "ref" ∈ releaseCases.map Prod.fst := List.mem_cons_self
    have hright : eventCase "2" "zip_url" ∈ releaseCases.map Prod.fst :=
      List.mem_cons_of_mem _ List.mem_cons_self
    rcases exists_mem_assignTiers EvalCase.name releasePool (1 / 2) (1 / 2) hleft with
      ⟨early, hearly, hfirst, htier⟩
    rcases exists_mem_assignTiers EvalCase.name releasePool (1 / 2) (1 / 2) hright with
      ⟨late, hlate, hsecond, hother⟩
    refine ⟨_, List.mem_cons_self, _, List.mem_cons_of_mem _ List.mem_cons_self, rfl, early,
      hearly, late, hlate, hfirst, hsecond, ?_⟩
    rw [htier, hother, tierOf, tierOf, heldOut_releaseCases,
      if_pos (List.mem_singleton_self (familyKeyOf releasePool (eventCase "2" "zip_url")))]
    decide +kernel

end

end Deblob.Experiment
