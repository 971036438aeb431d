import Deblob.Lib.Except
import Deblob.Redis.Feedback
import Mathlib.Data.List.Perm.Subperm

/-!
# Feedback exports do not leak

Every pass over the examples keeps some of them, and what it keeps of the beginning of the stream
does not depend on the rest. Since a cluster is reduced to one example before the split, the hash of
the family decides every side and the rule for clusters never overrides it.
-/

namespace Deblob.Redis

open Core Lib

variable {Body : Type} {examples : List (TrainingExample Body)} {record : TrainingExample Body}

/-! ## One example of each cluster -/

/-- Two examples are not of one cluster. -/
def ApartClusters (left right : TrainingExample Body) : Prop :=
  left.dedupCluster ≠ "" → left.dedupCluster ≠ right.dedupCluster

theorem ApartClusters.symm {left right : TrainingExample Body} (hapart : ApartClusters left right) :
    ApartClusters right left := by
  intro hright heq
  exact hapart (heq ▸ hright) heq.symm

/-- An example of the cluster is among the kept ones. -/
def ClusterKept (kept : List (TrainingExample Body)) (record : TrainingExample Body) : Prop :=
  record.dedupCluster ≠ "" ∧
    ∃ representative ∈ kept, representative.dedupCluster = record.dedupCluster

instance (kept : List (TrainingExample Body)) : DecidablePred (ClusterKept kept) := fun _ ↦
  inferInstanceAs (Decidable (_ ∧ _))

/-- The clusters seen are those of the examples kept. -/
structure SeenClusters (seen : Finset String) (kept : List (TrainingExample Body)) : Prop where
  mem : ∀ cluster ≠ "", cluster ∈ seen ↔ ∃ record ∈ kept, record.dedupCluster = cluster
  apart : kept.Pairwise ApartClusters

theorem SeenClusters.clusterStep {seen next : Finset String} {kept : List (TrainingExample Body)}
    (hseen : SeenClusters seen kept) (hstep : clusterStep seen record = some next) :
    SeenClusters next (kept ++ [record]) := by
  unfold Redis.clusterStep at hstep
  split_ifs at hstep with hempty hmem
  · cases hstep
    constructor
    · intro cluster hcluster
      rw [hseen.mem cluster hcluster]
      simp [hempty, hcluster.symm]
    · refine List.pairwise_append.mpr ⟨hseen.apart, List.pairwise_singleton _ _, ?_⟩
      intro other _ _ hrecord hother
      rw [List.mem_singleton.mp hrecord, hempty]
      exact hother
  · cases hstep
    constructor
    · intro cluster hcluster
      rw [Finset.mem_insert, hseen.mem cluster hcluster]
      simp only [List.mem_append, List.mem_singleton, or_and_right, exists_or, exists_eq_left]
      rw [or_comm, eq_comm]
    · refine List.pairwise_append.mpr ⟨hseen.apart, List.pairwise_singleton _ _, ?_⟩
      intro other hmember _ hrecord hother heq
      rw [List.mem_singleton.mp hrecord] at heq
      exact hmem ((hseen.mem _ hempty).mpr ⟨other, hmember, heq⟩)

theorem seenClusters_dedupByCluster (examples : List (TrainingExample Body)) :
    SeenClusters (scanState clusterStep ∅ examples) (dedupByCluster examples) :=
  scan_invariant ⟨by simp, List.Pairwise.nil⟩
    (fun _ _ _ _ hseen hstep ↦ hseen.clusterStep hstep) examples

theorem clusterStep_isSome {seen : Finset String} :
    (clusterStep seen record).isSome ↔
      ¬ (record.dedupCluster ≠ "" ∧ record.dedupCluster ∈ seen) := by
  unfold clusterStep
  split_ifs with hempty hmem
  · simp [hempty]
  · simp [hempty, hmem]
  · simp [hmem]

theorem dedupByCluster_concat (examples : List (TrainingExample Body))
    (record : TrainingExample Body) :
    dedupByCluster (examples ++ [record]) =
      dedupByCluster examples ++
        if ClusterKept (dedupByCluster examples) record then [] else [record] := by
  have hkept : ClusterKept (dedupByCluster examples) record ↔
      record.dedupCluster ≠ "" ∧ record.dedupCluster ∈ scanState clusterStep ∅ examples :=
    and_congr_right fun hcluster ↦ ((seenClusters_dedupByCluster examples).mem _ hcluster).symm
  rw [dedupByCluster, scan_concat, ← dedupByCluster]
  simp only [clusterStep_isSome, hkept, ite_not]

/-- The example has no cluster, or no earlier example is of its cluster. -/
def FirstOfCluster (before : List (TrainingExample Body)) (record : TrainingExample Body) : Prop :=
  record.dedupCluster ≠ "" → ∀ other ∈ before, other.dedupCluster ≠ record.dedupCluster

/-- Every cluster of the examples is represented. -/
theorem clusterKept_dedupByCluster_iff (examples : List (TrainingExample Body))
    (record : TrainingExample Body) :
    ClusterKept (dedupByCluster examples) record ↔ ¬ FirstOfCluster examples record := by
  have hrepresented (cluster : String) (hcluster : cluster ≠ "") :
      (∃ kept ∈ dedupByCluster examples, kept.dedupCluster = cluster) ↔
        ∃ other ∈ examples, other.dedupCluster = cluster := by
    induction examples using List.reverseRecOn with
    | nil => exact Iff.rfl
    | append_singleton examples other ih =>
        rw [dedupByCluster_concat]
        split_ifs with hkept
        · rw [List.append_nil, ih]
          constructor
          · rintro ⟨found, hfound, heq⟩
            exact ⟨found, List.mem_append_left _ hfound, heq⟩
          · rintro ⟨found, hfound, heq⟩
            rcases List.mem_append.mp hfound with hfound | hlast
            · exact ⟨found, hfound, heq⟩
            · rw [List.mem_singleton.mp hlast] at heq
              exact ih.mp (heq ▸ hkept.2)
        · simp only [List.mem_append, List.mem_singleton, or_and_right, exists_or, exists_eq_left,
            ih]
  unfold ClusterKept FirstOfCluster
  rw [Classical.not_imp]
  refine and_congr_right fun hcluster ↦ ?_
  rw [hrepresented _ hcluster]
  simp only [not_forall, not_not, exists_prop]

/-- Of every cluster the first example is kept. -/
theorem mem_dedupByCluster_iff (examples : List (TrainingExample Body)) :
    record ∈ dedupByCluster examples ↔
      ∃ before after, examples = before ++ record :: after ∧ FirstOfCluster before record := by
  induction examples using List.reverseRecOn with
  | nil => simp [dedupByCluster, scan_nil]
  | append_singleton examples last ih =>
      have hlast := clusterKept_dedupByCluster_iff examples last
      rw [dedupByCluster_concat, List.mem_append, ih]
      constructor
      · rintro (⟨before, after, rfl, hfirst⟩ | hmem)
        · exact ⟨before, after ++ [last], by simp, hfirst⟩
        · split_ifs at hmem with hkept
          · cases hmem
          · rw [hlast, not_not] at hkept
            rw [List.mem_singleton.mp hmem]
            exact ⟨examples, [], rfl, hkept⟩
      · rintro ⟨before, after, heq, hfirst⟩
        rcases List.eq_nil_or_concat after with rfl | ⟨after, found, rfl⟩
        · rw [List.append_singleton_inj] at heq
          rcases heq with ⟨rfl, rfl⟩
          rw [if_neg fun hkept ↦ hlast.mp hkept hfirst]
          exact .inr (List.mem_singleton_self _)
        · rw [List.concat_eq_append, ← List.cons_append, ← List.append_assoc,
            List.append_singleton_inj] at heq
          exact .inl ⟨before, after, heq.1, hfirst⟩

/-! ## What a family and a label source contribute -/

/-- How often a family and a label source are among the examples. -/
def contribution (examples : List (TrainingExample Body)) (key : String × LabelSource) : ℕ :=
  examples.countP fun record ↦ capKey record = key

theorem contribution_concat (examples : List (TrainingExample Body))
    (record : TrainingExample Body) :
    contribution (examples ++ [record]) =
      Function.update (contribution examples) (capKey record)
        (contribution examples (capKey record) + 1) := by
  funext key
  unfold contribution
  rw [List.countP_append, List.countP_singleton]
  by_cases hkey : key = capKey record
  · rw [hkey, Function.update_self]
    simp
  · rw [Function.update_of_ne hkey]
    simp [Ne.symm hkey]

theorem counts_applyCaps (caps : ExportCaps) (examples : List (TrainingExample Body)) :
    scanState (capStep caps) (fun _ ↦ 0) examples = contribution (applyCaps caps examples) ∧
      ∀ key, contribution (applyCaps caps examples) key ≤
        caps.maxExamplesPerPartitionAndLabelSource := by
  apply scan_invariant (I := fun counts kept ↦ counts = contribution kept ∧
    ∀ key, contribution kept key ≤ caps.maxExamplesPerPartitionAndLabelSource)
  · exact ⟨rfl, fun _ ↦ Nat.zero_le _⟩
  · rintro _ kept record next ⟨rfl, hcapped⟩ hstep
    unfold capStep at hstep
    split_ifs at hstep with hfull
    cases hstep
    refine ⟨(contribution_concat kept record).symm, fun key ↦ ?_⟩
    rw [contribution_concat]
    by_cases hkey : key = capKey record
    · rw [hkey, Function.update_self]
      omega
    · rw [Function.update_of_ne hkey]
      exact hcapped key

theorem contribution_applyCaps_le (caps : ExportCaps) (examples : List (TrainingExample Body))
    (key : String × LabelSource) :
    contribution (applyCaps caps examples) key ≤ caps.maxExamplesPerPartitionAndLabelSource :=
  (counts_applyCaps caps examples).2 key

theorem applyCaps_concat (caps : ExportCaps) (examples : List (TrainingExample Body))
    (record : TrainingExample Body) :
    applyCaps caps (examples ++ [record]) =
      applyCaps caps examples ++
        if contribution (applyCaps caps examples) (capKey record) =
          caps.maxExamplesPerPartitionAndLabelSource then [] else [record] := by
  have hle := contribution_applyCaps_le caps examples (capKey record)
  have hkeeps : (capStep caps (contribution (applyCaps caps examples)) record).isSome ↔
      contribution (applyCaps caps examples) (capKey record) ≠
        caps.maxExamplesPerPartitionAndLabelSource := by
    unfold capStep
    split_ifs with hfull
    · exact iff_of_false (by decide) (not_not_intro (le_antisymm hle hfull))
    · exact iff_of_true rfl fun heq ↦ hfull heq.ge
  rw [applyCaps, scan_concat, ← applyCaps, (counts_applyCaps caps examples).1]
  simp only [hkeeps, ite_not]

theorem contribution_append (left right : List (TrainingExample Body))
    (key : String × LabelSource) :
    contribution (left ++ right) key = contribution left key + contribution right key :=
  List.countP_append

/-- Up to the cap, the caps keep what a family and a label source contribute. -/
theorem contribution_applyCaps (caps : ExportCaps) (examples : List (TrainingExample Body))
    (key : String × LabelSource) :
    contribution (applyCaps caps examples) key =
      min caps.maxExamplesPerPartitionAndLabelSource (contribution examples key) := by
  induction examples using List.reverseRecOn with
  | nil => exact (Nat.min_zero _).symm
  | append_singleton examples record ih =>
      have hsingle : contribution [record] key = if capKey record = key then 1 else 0 := by
        simp [contribution, List.countP_singleton]
      have hnone : contribution ([] : List (TrainingExample Body)) key = 0 := rfl
      rw [applyCaps_concat, contribution_append, contribution_append, ih, hsingle]
      by_cases hkey : capKey record = key
      · subst hkey
        rw [if_pos rfl, ih]
        split_ifs with hfull
        · rw [hnone]
          omega
        · rw [hsingle, if_pos rfl]
          omega
      · rw [if_neg hkey]
        split_ifs
        · rw [hnone]
          rfl
        · rw [hsingle, if_neg hkey]
          rfl

/-- The families of the examples that the caps leave. -/
theorem exists_applyCaps_iff (caps : ExportCaps) (examples : List (TrainingExample Body))
    (family : String) :
    (∃ record ∈ applyCaps caps examples, record.partitionKey.asStr = family) ↔
      0 < caps.maxExamplesPerPartitionAndLabelSource ∧
        ∃ record ∈ examples, record.partitionKey.asStr = family := by
  have hcontribution (examples : List (TrainingExample Body)) (key : String × LabelSource) :
      0 < contribution examples key ↔ ∃ record ∈ examples, capKey record = key := by
    simp [contribution, List.countP_pos_iff]
  constructor
  · rintro ⟨record, hrecord, rfl⟩
    have hpos := (hcontribution _ (capKey record)).mpr ⟨record, hrecord, rfl⟩
    have hle := contribution_applyCaps_le caps examples (capKey record)
    exact ⟨hpos.trans_le hle, record, (scan_sublist _ _ _).mem hrecord, rfl⟩
  · rintro ⟨hcap, record, hrecord, rfl⟩
    have hpos := (hcontribution _ (capKey record)).mpr ⟨record, hrecord, rfl⟩
    have hkept := contribution_applyCaps caps examples (capKey record)
    have hkeptPos : 0 < contribution (applyCaps caps examples) (capKey record) := by
      rw [hkept]
      exact lt_min hcap hpos
    rcases (hcontribution _ _).mp hkeptPos with ⟨kept, hmem, hkey⟩
    exact ⟨kept, hmem, congrArg Prod.fst hkey⟩

/-! ## The sides -/

/-- The split an example belongs to: the safety suite, or the side of its family. -/
def splitOf (familyHoldout : String → Bool) (record : TrainingExample Body) : SplitName :=
  if IsSafetySuite record then .neverTrainedSafetySuite
  else if familyHoldout record.partitionKey.asStr then .holdout
  else .train

/-- Without two examples of one cluster, the family decides every side. -/
theorem assignSplit_eq_map (familyHoldout : String → Bool)
    (hapart : examples.Pairwise ApartClusters) :
    assignSplit familyHoldout examples = examples.map fun record ↦
      if familyHoldout record.partitionKey.asStr then .holdout else .train := by
  have hfrom (sides : String → Option Bool)
      (hsides : ∀ record ∈ examples, record.dedupCluster ≠ "" →
        sides record.dedupCluster = none) :
      assignSplitFrom familyHoldout sides examples = examples.map fun record ↦
        if familyHoldout record.partitionKey.asStr then .holdout else .train := by
    induction examples generalizing sides with
    | nil => rfl
    | cons record rest ih =>
        rcases List.pairwise_cons.mp hapart with ⟨hhead, hrest⟩
        rcases List.forall_mem_cons.mp hsides with ⟨hside, hsides⟩
        rw [assignSplitFrom, List.map_cons]
        unfold assignSide
        by_cases hempty : record.dedupCluster = ""
        · simp only [hempty, if_true]
          rw [ih hrest sides hsides]
        · simp only [hempty, if_false, hside hempty, Option.getD_none]
          rw [ih hrest]
          intro other hother hcluster
          rw [Function.update_of_ne (hhead other hother hempty).symm]
          exact hsides other hother hcluster
  exact hfrom _ fun _ _ _ ↦ rfl

/-- The caps apply to the splits that are trained or tested on. -/
def cappedSplit (caps : ExportCaps) :
    SplitName → List (TrainingExample Body) → List (TrainingExample Body)
  | .train => applyCaps caps
  | .holdout => applyCaps caps
  | .neverTrainedSafetySuite => id

section

variable (familyHoldout : String → Bool) (caps : ExportCaps) (quarantined : Finset String)

theorem filter_zip_map {α β : Type*} [DecidableEq β] (label : α → β) (items : List α)
    (name : β) :
    ((items.zip (items.map label)).filter (·.2 = name)).map Prod.fst =
      items.filter (label · = name) := by
  induction items with
  | nil => rfl
  | cons item items ih =>
      rw [List.map_cons, List.zip_cons_cons, List.filter_cons, List.filter_cons]
      split_ifs
      · rw [List.map_cons, ih]
      · exact ih

/-- A collection has the filtered examples of its split, up to the caps. -/
theorem collection_snapshotOf (examples : List (TrainingExample Body)) (split : SplitName) :
    (snapshotOf familyHoldout caps quarantined examples).collection split =
      cappedSplit caps split
        ((filteredExamples quarantined false examples).filter
          (splitOf familyHoldout · = split)) := by
  have hrest : ((filteredExamples quarantined false examples).filter
      (not ∘ fun record ↦ decide (IsSafetySuite record))).Pairwise ApartClusters :=
    (seenClusters_dedupByCluster _).apart.filter _
  unfold snapshotOf Snapshot.collection
  rw [List.partition_eq_filter_filter]
  dsimp only
  rw [assignSplit_eq_map familyHoldout hrest, filter_zip_map, filter_zip_map, List.filter_filter,
    List.filter_filter]
  cases split
  · dsimp only [cappedSplit]
    congr 1
    apply List.filter_congr
    intro record _
    unfold splitOf
    by_cases hsafety : IsSafetySuite record <;> simp [hsafety]
  · dsimp only [cappedSplit]
    congr 1
    apply List.filter_congr
    intro record _
    unfold splitOf
    by_cases hsafety : IsSafetySuite record <;> simp [hsafety]
  · apply List.filter_congr
    intro record _
    unfold splitOf
    split_ifs with hsafety <;> simp [hsafety]

theorem mem_collection {split : SplitName}
    (hmem : record ∈ (snapshotOf familyHoldout caps quarantined examples).collection split) :
    record ∈ filteredExamples quarantined false examples ∧ splitOf familyHoldout record = split := by
  rw [collection_snapshotOf] at hmem
  have hfilter : record ∈ (filteredExamples quarantined false examples).filter
      (splitOf familyHoldout · = split) := by
    cases split
    · exact (scan_sublist _ _ _).mem hmem
    · exact (scan_sublist _ _ _).mem hmem
    · exact hmem
  rw [List.mem_filter, decide_eq_true_eq] at hfilter
  exact hfilter

/-! ## What is kept of a stream that grows -/

theorem filteredExamples_sublist (excludeSafetySuite : Bool)
    (examples : List (TrainingExample Body)) :
    (filteredExamples quarantined excludeSafetySuite examples).Sublist examples := by
  unfold filteredExamples
  apply (scan_sublist _ _ _).trans
  split_ifs
  · exact List.filter_sublist.trans List.filter_sublist
  · exact List.filter_sublist

theorem actor_of_mem_filteredExamples {excludeSafetySuite : Bool}
    (hmem : record ∈ filteredExamples quarantined excludeSafetySuite examples) :
    record.actor ∉ quarantined := by
  have htrusted : record ∈ examples.filter fun record ↦ record.actor ∉ quarantined := by
    have hscan := (scan_sublist _ _ _).mem hmem
    split_ifs at hscan
    · exact List.filter_sublist.mem hscan
    · exact hscan
  rw [List.mem_filter, decide_eq_true_eq] at htrusted
  exact htrusted.2

theorem filteredExamples_concat (examples : List (TrainingExample Body))
    (htrusted : record.actor ∉ quarantined) :
    filteredExamples quarantined false (examples ++ [record]) =
      filteredExamples quarantined false examples ++
        if ClusterKept (filteredExamples quarantined false examples) record then []
        else [record] := by
  unfold filteredExamples
  have hsingle : [record].filter (fun record ↦ record.actor ∉ quarantined) = [record] :=
    List.filter_eq_self.mpr (by simpa using htrusted)
  simp only [List.filter_append, hsingle, Bool.false_eq_true, if_false]
  exact dedupByCluster_concat _ _

theorem filteredExamples_isPrefix (before after : List (TrainingExample Body)) :
    filteredExamples quarantined false before <+:
      filteredExamples quarantined false (before ++ after) := by
  unfold filteredExamples
  simp only [List.filter_append, Bool.false_eq_true, if_false]
  exact scan_isPrefix _ _ _ _

theorem cappedSplit_isPrefix {split : SplitName} {before after : List (TrainingExample Body)}
    (hbefore : before <+: after) : cappedSplit caps split before <+: cappedSplit caps split after := by
  rcases hbefore with ⟨rest, rfl⟩
  cases split
  · exact scan_isPrefix _ _ _ _
  · exact scan_isPrefix _ _ _ _
  · exact List.prefix_append _ _

theorem cappedSplit_concat (split : SplitName) (examples : List (TrainingExample Body))
    (record : TrainingExample Body) :
    cappedSplit caps split (examples ++ [record]) =
      cappedSplit caps split examples ++
        if split ≠ .neverTrainedSafetySuite ∧
          contribution (cappedSplit caps split examples) (capKey record) =
            caps.maxExamplesPerPartitionAndLabelSource then []
        else [record] := by
  cases split
  · simpa [cappedSplit] using applyCaps_concat caps examples record
  · simpa [cappedSplit] using applyCaps_concat caps examples record
  · simp [cappedSplit]

/-- What a snapshot has of the beginning of a stream, it has of the whole stream. -/
theorem collection_isPrefix (before after : List (TrainingExample Body)) (split : SplitName) :
    (snapshotOf familyHoldout caps quarantined before).collection split <+:
      (snapshotOf familyHoldout caps quarantined (before ++ after)).collection split := by
  rw [collection_snapshotOf, collection_snapshotOf]
  exact cappedSplit_isPrefix caps ((filteredExamples_isPrefix quarantined before after).filter _)

/-- The collection an example belongs to has all it may take of its family and label source. -/
def AtCap (snapshot : Snapshot Body) (record : TrainingExample Body) : Prop :=
  ¬ IsSafetySuite record ∧
    contribution (snapshot.collection (splitOf familyHoldout record)) (capKey record) =
      caps.maxExamplesPerPartitionAndLabelSource

instance (snapshot : Snapshot Body) : DecidablePred (AtCap familyHoldout caps snapshot) := fun _ ↦
  inferInstanceAs (Decidable (_ ∧ _))

/-- The next example goes to the end of the collection of its split, if its cluster has no
representative and the caps leave room for it. -/
theorem collection_concat (before : List (TrainingExample Body))
    (htrusted : record.actor ∉ quarantined) (split : SplitName) :
    (snapshotOf familyHoldout caps quarantined (before ++ [record])).collection split =
      (snapshotOf familyHoldout caps quarantined before).collection split ++
        if ClusterKept (filteredExamples quarantined false before) record ∨
          AtCap familyHoldout caps (snapshotOf familyHoldout caps quarantined before) record ∨
          splitOf familyHoldout record ≠ split then []
        else [record] := by
  have hcollection := collection_snapshotOf familyHoldout caps quarantined before split
  rw [collection_snapshotOf, hcollection, filteredExamples_concat quarantined before htrusted]
  by_cases hkept : ClusterKept (filteredExamples quarantined false before) record
  · simp [hkept]
  by_cases hsplit : splitOf familyHoldout record = split
  · subst hsplit
    have hcap : AtCap familyHoldout caps (snapshotOf familyHoldout caps quarantined before) record ↔
        splitOf familyHoldout record ≠ .neverTrainedSafetySuite ∧
          contribution (cappedSplit caps (splitOf familyHoldout record)
            ((filteredExamples quarantined false before).filter
              (splitOf familyHoldout · = splitOf familyHoldout record))) (capKey record) =
            caps.maxExamplesPerPartitionAndLabelSource := by
      rw [AtCap, hcollection]
      apply and_congr_left'
      unfold splitOf
      split_ifs with hsafety <;> simp [hsafety]
    simp only [hkept, hcap, false_or, ne_eq, not_true_eq_false, or_false, if_false,
      List.filter_append, List.filter_singleton, decide_true, cond_true]
    exact cappedSplit_concat caps _ _ record
  · simp [hkept, hsplit]

/-! ## Snapshots -/

/-- A snapshot keeps families and clusters on one side, the safety suite and the actors in
quarantine out of training, and the caps. -/
structure LeakFree (stored : List (TrainingExample Body)) (snapshot : Snapshot Body) : Prop where
  sublist : ∀ split, (snapshot.collection split).Sublist stored
  together : (snapshot.train ++ (snapshot.holdout ++ snapshot.safetySuite)).Subperm stored
  families : ∀ left ∈ snapshot.train, ∀ right ∈ snapshot.holdout,
    left.partitionKey ≠ right.partitionKey
  clusters : (snapshot.train ++ (snapshot.holdout ++ snapshot.safetySuite)).Pairwise ApartClusters
  safetySuite : ∀ split, ∀ record ∈ snapshot.collection split,
    IsSafetySuite record ↔ split = .neverTrainedSafetySuite
  trusted : ∀ split, ∀ record ∈ snapshot.collection split, record.actor ∉ quarantined
  capped : ∀ split ≠ .neverTrainedSafetySuite, ∀ key,
    contribution (snapshot.collection split) key ≤ caps.maxExamplesPerPartitionAndLabelSource

theorem splitOf_eq_safetySuite :
    splitOf familyHoldout record = .neverTrainedSafetySuite ↔ IsSafetySuite record := by
  unfold splitOf
  split_ifs with hsafety <;> simp [hsafety]

theorem cappedSplit_sublist (split : SplitName) (examples : List (TrainingExample Body)) :
    (cappedSplit caps split examples).Sublist examples := by
  cases split
  · exact scan_sublist _ _ _
  · exact scan_sublist _ _ _
  · exact List.Sublist.refl _

theorem collection_sublist (examples : List (TrainingExample Body)) (split : SplitName) :
    ((snapshotOf familyHoldout caps quarantined examples).collection split).Sublist
      ((filteredExamples quarantined false examples).filter
        (splitOf familyHoldout · = split)) := by
  rw [collection_snapshotOf]
  exact cappedSplit_sublist caps split _

theorem filter_splits_perm {α : Type*} (label : α → SplitName) (items : List α) :
    (items.filter (label · = .train) ++ (items.filter (label · = .holdout) ++
      items.filter (label · = .neverTrainedSafetySuite))).Perm items := by
  induction items with
  | nil => exact List.Perm.refl _
  | cons item items ih =>
      cases hlabel : label item
      · simpa [hlabel] using ih
      · simpa [hlabel] using List.perm_middle.trans (ih.cons item)
      · simpa [hlabel] using (List.perm_append_left_iff _).mpr List.perm_middle |>.trans
          (List.perm_middle.trans (ih.cons item))

/-- The three collections share out the filtered examples. -/
theorem snapshotOf_subperm (examples : List (TrainingExample Body)) :
    let snapshot := snapshotOf familyHoldout caps quarantined examples
    (snapshot.train ++ (snapshot.holdout ++ snapshot.safetySuite)).Subperm
      (filteredExamples quarantined false examples) := by
  intro snapshot
  have hsplit (name : SplitName) := (collection_sublist familyHoldout caps quarantined examples
    name).subperm
  exact ((hsplit .train).append ((hsplit .holdout).append
    (hsplit .neverTrainedSafetySuite))).trans
      (filter_splits_perm _ _).subperm

theorem snapshotOf_leakFree (examples : List (TrainingExample Body)) :
    LeakFree caps quarantined examples (snapshotOf familyHoldout caps quarantined examples) where
  sublist split := (collection_sublist familyHoldout caps quarantined examples split).trans
    (List.filter_sublist.trans (filteredExamples_sublist quarantined false examples))
  together := (snapshotOf_subperm familyHoldout caps quarantined examples).trans
    (filteredExamples_sublist quarantined false examples).subperm
  families left hleft right hright heq := by
    have htrain := (@mem_collection _ _ _ familyHoldout caps quarantined .train hleft).2
    have hholdout := (@mem_collection _ _ _ familyHoldout caps quarantined .holdout hright).2
    unfold splitOf at htrain hholdout
    rw [heq] at htrain
    split_ifs at htrain hholdout
  clusters := by
    rcases snapshotOf_subperm familyHoldout caps quarantined examples with ⟨kept, hperm, hkept⟩
    have hapart : kept.Pairwise ApartClusters :=
      (seenClusters_dedupByCluster _).apart.sublist hkept
    exact hperm.pairwise hapart ApartClusters.symm
  safetySuite split record hrecord := by
    rw [← splitOf_eq_safetySuite familyHoldout,
      (mem_collection familyHoldout caps quarantined hrecord).2]
  trusted split record hrecord :=
    actor_of_mem_filteredExamples quarantined
      (mem_collection familyHoldout caps quarantined hrecord).1
  capped split hsplit key := by
    rw [collection_snapshotOf]
    cases split
    · exact contribution_applyCaps_le caps _ key
    · exact contribution_applyCaps_le caps _ key
    · exact absurd rfl hsplit

/-! ## The training blob -/

/-- The examples of the training blob. -/
def exportedExamples (examples : List (TrainingExample Body)) : List (TrainingExample Body) :=
  applyCaps caps (filteredExamples quarantined true examples)

theorem mem_exportedExamples (hmem : record ∈ exportedExamples caps quarantined examples) :
    record ∈ examples ∧ record.actor ∉ quarantined ∧ ¬ IsSafetySuite record := by
  have hfiltered : record ∈ filteredExamples quarantined true examples :=
    (scan_sublist _ _ _).mem hmem
  have hsafety : record ∈ (examples.filter fun record ↦ record.actor ∉ quarantined).filter
      fun record ↦ ¬ IsSafetySuite record := (scan_sublist _ _ _).mem hfiltered
  exact ⟨(filteredExamples_sublist quarantined true examples).mem hfiltered,
    actor_of_mem_filteredExamples quarantined hfiltered, by simpa using (List.mem_filter.mp hsafety).2⟩

end

/-- An example that the training blob may have. -/
def Offered (quarantined : Finset String) (record : TrainingExample Body) : Prop :=
  record.actor ∉ quarantined ∧ ¬ IsSafetySuite record

instance (quarantined : Finset String) : DecidablePred (@Offered Body quarantined) := fun _ ↦
  inferInstanceAs (Decidable (_ ∧ _))

/-- The examples that are offered and the first of their cluster. -/
theorem mem_filteredExamples_iff (quarantined : Finset String)
    (examples : List (TrainingExample Body)) :
    record ∈ filteredExamples quarantined true examples ↔
      ∃ before after, examples = before ++ record :: after ∧ Offered quarantined record ∧
        FirstOfCluster (before.filter fun other ↦ Offered quarantined other) record := by
  have hoffered : (examples.filter fun record ↦ record.actor ∉ quarantined).filter
      (fun record ↦ ¬ IsSafetySuite record) =
      examples.filter fun record ↦ Offered quarantined record := by
    rw [List.filter_filter]
    exact List.filter_congr fun other _ ↦ by
      rw [← Bool.decide_and]
      exact decide_eq_decide.mpr and_comm
  rw [filteredExamples, if_pos rfl, hoffered, mem_dedupByCluster_iff]
  constructor
  · rintro ⟨kept, rest, hsplit, hfirst⟩
    rcases List.filter_eq_append_iff.mp hsplit with ⟨before, tail, rfl, rfl, htail⟩
    rcases List.filter_eq_cons_iff.mp htail with ⟨between, after, rfl, hbetween, hrecord, rfl⟩
    refine ⟨before ++ between, after, by simp, of_decide_eq_true hrecord, ?_⟩
    rwa [List.filter_append, List.filter_eq_nil_iff.mpr hbetween, List.append_nil]
  · rintro ⟨before, after, rfl, hrecord, hfirst⟩
    refine ⟨_, after.filter fun other ↦ Offered quarantined other, ?_, hfirst⟩
    rw [List.filter_append, List.filter_cons, if_pos (decide_eq_true hrecord)]

/-- The families of the training blob. -/
theorem exists_exportedExamples_iff (caps : ExportCaps) (quarantined : Finset String)
    (examples : List (TrainingExample Body)) (family : String) :
    (∃ record ∈ exportedExamples caps quarantined examples, record.partitionKey.asStr = family) ↔
      0 < caps.maxExamplesPerPartitionAndLabelSource ∧
        ∃ before record after, examples = before ++ record :: after ∧
          Offered quarantined record ∧
          FirstOfCluster (before.filter fun other ↦ Offered quarantined other) record ∧
          record.partitionKey.asStr = family := by
  rw [exportedExamples, exists_applyCaps_iff]
  simp only [mem_filteredExamples_iff]
  refine and_congr_right fun _ ↦ ⟨?_, ?_⟩
  · rintro ⟨record, ⟨before, after, heq, hoffered, hfirst⟩, hfamily⟩
    exact ⟨before, record, after, heq, hoffered, hfirst, hfamily⟩
  · rintro ⟨before, record, after, heq, hoffered, hfirst, hfamily⟩
    exact ⟨record, ⟨before, after, heq, hoffered, hfirst⟩, hfamily⟩

/-- The lines of examples, and how many there are. -/
def linesOf (codec : FeedbackCodec Body) (examples : List (TrainingExample Body)) : String × ℕ :=
  (String.join (examples.map fun record ↦ codec.recordLine record ++ "\n"), examples.length)

theorem writeLines_eq (codec : FeedbackCodec Body) (partition : Option FamilyId)
    (examples : List (TrainingExample Body)) :
    writeLines codec partition examples =
      linesOf codec (examples.filter fun record ↦ ¬ partition.any (· ≠ record.partitionKey)) := by
  have hfold (skips : TrainingExample Body → Bool) :
      examples.foldl (fun state record ↦
        if skips record then (state.1, state.2)
        else (state.1 ++ codec.recordLine record ++ "\n", state.2 + 1)) ("", 0) =
          linesOf codec (examples.filter fun record ↦ ¬ skips record) := by
    induction examples using List.reverseRecOn with
    | nil => rfl
    | append_singleton examples record ih =>
        rw [List.foldl_append, ih]
        cases hskip : skips record <;> simp [hskip, linesOf, String.append_assoc]
  exact hfold fun record ↦ partition.any (· ≠ record.partitionKey)

/-! ## Both exports -/

section

variable {codec : FeedbackCodec Body} {stream : FeedbackStream}
  {stored : List (TrainingExample Body)}

/-- A corrupt stream is not exported. -/
theorem exportSnapshot_corrupt {error : String} (hcorrupt : allExamples codec stream = .error error)
    (caps : ExportCaps) (quarantined : Finset String) (createdAt : ℤ) :
    exportSnapshot codec caps quarantined stream createdAt = .error error := by
  rw [exportSnapshot, hcorrupt]
  rfl

theorem exportJsonl_eq (caps : ExportCaps) (quarantined : Finset String)
    (hstored : allExamples codec stream = .ok stored) (partition : Option FamilyId) :
    exportJsonl codec caps quarantined stream partition =
      .ok (linesOf codec ((exportedExamples caps quarantined stored).filter
        fun record ↦ ¬ partition.any (· ≠ record.partitionKey))) := by
  rw [exportJsonl, hstored, ← writeLines_eq]
  rfl

/-- The whole training blob. -/
theorem exportJsonl_none (caps : ExportCaps) (quarantined : Finset String)
    (hstored : allExamples codec stream = .ok stored) :
    exportJsonl codec caps quarantined stream none =
      .ok (linesOf codec (exportedExamples caps quarantined stored)) := by
  rw [exportJsonl_eq caps quarantined hstored]
  simp

end

/-! ## A stream with every kind of example -/

def feedbackSample : List (TrainingExample Unit) :=
  [⟨(), .humanPromote, ⟨"fam_a"⟩, "alice", "c1"⟩, ⟨(), .humanPromote, ⟨"fam_b"⟩, "bob", "c1"⟩,
    ⟨(), .humanPromote, ⟨"fam_a"⟩, "alice", ""⟩, ⟨(), .adjudication, ⟨"fam_b"⟩, "mallory", "c2"⟩,
    ⟨(), .adjudication, ⟨"fam_b"⟩, "bob", "safety:1"⟩]

/-- The text of an example is its place in the sample. -/
def feedbackSampleCodec : FeedbackCodec Unit where
  fromStr text := (feedbackSample[text.length]?).elim (.error "expected value") .ok
  recordLine record := record.dedupCluster
  manifestJson manifest := manifest.snapshotId
  sha256 bytes := Vector.replicate 32 (bytes.getLastD 0)

def feedbackSampleStream : FeedbackStream :=
  [("1-0", [("data", "")]), ("2-0", [("data", "-")]), ("3-0", [("data", "--"), ("note", "x")]),
    ("4-0", [("data", "---")]), ("5-0", [("data", "----")])]

end Deblob.Redis
