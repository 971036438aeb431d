import Deblob.Retrieval.Accepted

/-!
# The ranking is canonical

The representatives of the families are the best versions, strictly ordered by distance and name, so
they are known by the set of schemas that were scored. The ranking is a first part of them, and the
ties are taken from the rest.
-/

namespace Deblob.Retrieval

open Core Lib
open Umbrella (Value)

/-- The best version of its family. -/
structure IsRepresentative (scored : List FamilyCandidate) (candidate : FamilyCandidate) :
    Prop where
  mem : candidate ∈ scored
  least : ∀ other ∈ scored, other.familyId = candidate.familyId →
    versionKey candidate ≤ versionKey other

/-- A candidate before the ranks are assigned. -/
def FamilyCandidate.unranked (candidate : FamilyCandidate) : FamilyCandidate :=
  { candidate with rank := 0 }

/-! ## Representatives -/

/-- A candidate without a rank is known by its family and its key. -/
theorem eq_of_versionKey {left right : FamilyCandidate} (hfamily : left.familyId = right.familyId)
    (hkey : versionKey left = versionKey right) (hrank : left.rank = right.rank) :
    left = right := by
  rcases left with ⟨_, _, _, _, _⟩
  rcases right with ⟨_, _, _, _, _⟩
  simp only [versionKey, toLex_inj, Prod.mk.injEq] at hkey
  rcases hkey with ⟨hdistance, hversion, hschema⟩
  have hid := DigestId.asStr_injective hschema
  simp_all

theorem pairwise_familyRepresentatives (scored : List FamilyCandidate) :
    (familyRepresentatives scored).Pairwise fun left right ↦
      rankingKey left < rankingKey right := by
  apply pairwise_lt_sortOn
  apply (@pairwise_leastOfGroups _ _ _ _ _ familyName versionKey scored).imp
  intro left right hlt heq
  have hname : familyName left = familyName right := congrArg (fun key ↦ (ofLex key).2) heq
  exact hlt.ne hname

/-- No two representatives are of one family. -/
theorem pairwise_familyId_familyRepresentatives (scored : List FamilyCandidate) :
    (familyRepresentatives scored).Pairwise fun left right ↦ left.familyId ≠ right.familyId := by
  have hnames := @pairwise_leastOfGroups _ _ _ _ _ familyName versionKey scored
  refine (sortOn_perm rankingKey _).symm.pairwise (hnames.imp ?_) fun hne ↦ hne.symm
  intro left right hlt heq
  exact hlt.ne (familyName_inj.mpr heq)

theorem IsRepresentative.of_mem {scored : List FamilyCandidate} {candidate : FamilyCandidate}
    (hmem : candidate ∈ familyRepresentatives scored) : IsRepresentative scored candidate := by
  rw [familyRepresentatives, mem_sortOn] at hmem
  have hbest := mem_leastOfGroups hmem
  exact ⟨hbest.1, fun other hother hfamily ↦ hbest.2 other hother (familyName_inj.mpr hfamily)⟩

/-- Every family that was scored has a representative. -/
theorem exists_representative {scored : List FamilyCandidate} {candidate : FamilyCandidate}
    (hmem : candidate ∈ scored) :
    ∃ best ∈ familyRepresentatives scored, best.familyId = candidate.familyId := by
  rcases @exists_leastOfGroups _ _ _ _ _ familyName versionKey _ _ hmem with ⟨best, hbest, hname⟩
  exact ⟨best, mem_sortOn.mpr hbest, familyName_inj.mp hname⟩

theorem length_familyRepresentatives (scored : List FamilyCandidate) :
    (familyRepresentatives scored).length = (scored.map (·.familyId)).toFinset.card := by
  have hnodup : ((familyRepresentatives scored).map (·.familyId)).Nodup :=
    List.pairwise_map.mpr (pairwise_familyId_familyRepresentatives scored)
  have hfamilies : ((familyRepresentatives scored).map (·.familyId)).toFinset =
      (scored.map (·.familyId)).toFinset := by
    ext family
    simp only [List.mem_toFinset, List.mem_map]
    constructor
    · rintro ⟨best, hbest, rfl⟩
      exact ⟨best, (IsRepresentative.of_mem hbest).mem, rfl⟩
    · rintro ⟨candidate, hcandidate, rfl⟩
      exact exists_representative hcandidate
  rw [← hfamilies, List.toFinset_card_of_nodup hnodup, List.length_map]

section

variable {scored : List FamilyCandidate}
  (hunranked : ∀ candidate ∈ scored, candidate.rank = 0)

include hunranked

theorem mem_familyRepresentatives_iff {candidate : FamilyCandidate} :
    candidate ∈ familyRepresentatives scored ↔ IsRepresentative scored candidate := by
  constructor
  · exact IsRepresentative.of_mem
  · intro hbest
    rcases exists_representative hbest.mem with ⟨other, hother, hfamily⟩
    have hotherBest := IsRepresentative.of_mem hother
    have hkey := (hotherBest.least candidate hbest.mem hfamily.symm).antisymm
      (hbest.least other hotherBest.mem hfamily)
    rwa [← eq_of_versionKey hfamily hkey ((hunranked other hotherBest.mem).trans
      (hunranked candidate hbest.mem).symm)]

/-- The representatives are those of the set of scored schemas. -/
theorem familyRepresentatives_eq {others : List FamilyCandidate}
    (hsame : ∀ candidate, candidate ∈ others ↔ candidate ∈ scored) :
    familyRepresentatives others = familyRepresentatives scored := by
  have hothers : ∀ candidate ∈ others, candidate.rank = 0 :=
    fun candidate hmem ↦ hunranked candidate ((hsame candidate).mp hmem)
  apply eq_of_pairwise_lt (pairwise_familyRepresentatives others)
    (pairwise_familyRepresentatives scored)
  intro candidate
  rw [mem_familyRepresentatives_iff hothers, mem_familyRepresentatives_iff hunranked]
  constructor
  · intro hbest
    exact ⟨(hsame _).mp hbest.mem, fun other hother ↦ hbest.least other ((hsame _).mpr hother)⟩
  · intro hbest
    exact ⟨(hsame _).mpr hbest.mem, fun other hother ↦ hbest.least other ((hsame _).mp hother)⟩

end

/-! ## Ranks -/

theorem map_unranked_ranked {candidates : List FamilyCandidate}
    (hunranked : ∀ candidate ∈ candidates, candidate.rank = 0) :
    (ranked candidates).map (·.unranked) = candidates := by
  rw [ranked, List.map_map]
  conv_rhs => rw [← List.zipIdx_map_fst 0 candidates]
  apply List.map_congr_left
  rintro ⟨candidate, index⟩ hmem
  have hrank := hunranked candidate (List.fst_mem_of_mem_zipIdx hmem)
  rcases candidate with ⟨_, _, _, _, _⟩
  exact congrArg _ hrank.symm

theorem map_rank_ranked (candidates : List FamilyCandidate) :
    (ranked candidates).map (·.rank) = List.range' 1 candidates.length := by
  calc
    _ = candidates.zipIdx.map ((1 + ·) ∘ Prod.snd) := by
      rw [ranked, List.map_map]
      exact List.map_congr_left fun entry _ ↦ Nat.add_comm entry.2 1
    _ = (List.range' 0 candidates.length).map (1 + ·) := by
      rw [← List.map_map, List.zipIdx_map_snd]
    _ = List.range' 1 candidates.length := List.map_add_range' ..

theorem length_ranked (candidates : List FamilyCandidate) :
    (ranked candidates).length = candidates.length := by
  rw [ranked, List.length_map, List.length_zipIdx]

/-! ## The first families and the rest -/

section

variable (unicode : Unicode) (fromStr : Bytes → Except String Value)
  (features : StructuralFeatures) (refs : List FamilyRef) (k : ℕ)

theorem rank_scoreRefs :
    ∀ candidate ∈ scoreRefs unicode fromStr features refs, candidate.rank = 0 := by
  intro candidate hcandidate
  rcases List.mem_map.mp hcandidate with ⟨ref, -, rfl⟩
  rfl

/-- The same schemas, in any order and listed any number of times, have the same result. -/
theorem rankCandidates_eq {others : List FamilyRef} (hsame : ∀ ref, ref ∈ others ↔ ref ∈ refs) :
    rankCandidates unicode fromStr features others k =
      rankCandidates unicode fromStr features refs k := by
  have hscored (candidate : FamilyCandidate) :
      candidate ∈ scoreRefs unicode fromStr features others ↔
        candidate ∈ scoreRefs unicode fromStr features refs := by
    simp only [scoreRefs, List.mem_map, hsame]
  have hrank := rank_scoreRefs unicode fromStr features refs
  simp only [rankCandidates, familyRepresentatives_eq hrank hscored]

/-- The representatives of the schemas that are ranked. -/
def representatives : List FamilyCandidate :=
  familyRepresentatives (scoreRefs unicode fromStr features refs)

theorem mem_representatives_iff {candidate : FamilyCandidate} :
    candidate ∈ representatives unicode fromStr features refs ↔
      IsRepresentative (scoreRefs unicode fromStr features refs) candidate :=
  mem_familyRepresentatives_iff (rank_scoreRefs unicode fromStr features refs)

/-- The representatives by distance and name, with the cut between the kept and the rest. -/
theorem pairwise_take_drop :
    (representatives unicode fromStr features refs).Pairwise
        (fun left right ↦ rankingKey left < rankingKey right) ∧
      ∀ kept ∈ (representatives unicode fromStr features refs).take k,
        ∀ dropped ∈ (representatives unicode fromStr features refs).drop k,
          rankingKey kept < rankingKey dropped := by
  have hsorted := pairwise_familyRepresentatives (scoreRefs unicode fromStr features refs)
  refine ⟨hsorted, ?_⟩
  change (representatives unicode fromStr features refs).Pairwise _ at hsorted
  rw [← List.take_append_drop k (representatives unicode fromStr features refs),
    List.pairwise_append] at hsorted
  exact hsorted.2.2

theorem unranked_candidates :
    (rankCandidates unicode fromStr features refs k).candidates.map (·.unranked) =
      (representatives unicode fromStr features refs).take k := by
  apply map_unranked_ranked
  intro candidate hcandidate
  have hbest := IsRepresentative.of_mem (List.mem_of_mem_take hcandidate)
  exact rank_scoreRefs unicode fromStr features refs candidate hbest.mem

theorem unranked_mem_take {candidate : FamilyCandidate}
    (hcandidate : candidate ∈ (rankCandidates unicode fromStr features refs k).candidates) :
    candidate.unranked ∈ (representatives unicode fromStr features refs).take k := by
  rw [← unranked_candidates]
  exact List.mem_map_of_mem hcandidate

theorem length_candidates :
    (rankCandidates unicode fromStr features refs k).candidates.length =
      min k (representatives unicode fromStr features refs).length := by
  rw [← List.length_take, ← unranked_candidates, List.length_map]

/-- No candidate of the result is of the family. -/
def LeftOut (result : RetrievalResult) (family : FamilyId) : Prop :=
  ∀ kept ∈ result.candidates, kept.familyId ≠ family

/-- The representatives of the families that are left out are the ones behind the cut. -/
theorem mem_drop_representatives_iff {candidate : FamilyCandidate} :
    candidate ∈ (representatives unicode fromStr features refs).drop k ↔
      candidate ∈ representatives unicode fromStr features refs ∧
        LeftOut (rankCandidates unicode fromStr features refs k) candidate.familyId := by
  have hleftOut (family : FamilyId) :
      LeftOut (rankCandidates unicode fromStr features refs k) family ↔
        ∀ kept ∈ (representatives unicode fromStr features refs).take k,
          kept.familyId ≠ family := by
    rw [← unranked_candidates, List.forall_mem_map]
    rfl
  rw [hleftOut]
  have hdistinct := pairwise_familyId_familyRepresentatives
    (scoreRefs unicode fromStr features refs)
  change (representatives unicode fromStr features refs).Pairwise _ at hdistinct
  rw [← List.take_append_drop k (representatives unicode fromStr features refs),
    List.pairwise_append] at hdistinct
  constructor
  · intro hmem
    exact ⟨List.mem_of_mem_drop hmem, fun kept hkept ↦ hdistinct.2.2 kept hkept candidate hmem⟩
  · rintro ⟨hmem, hout⟩
    rw [← List.take_append_drop k (representatives unicode fromStr features refs),
      List.mem_append] at hmem
    exact hmem.resolve_left fun hkept ↦ hout candidate hkept rfl

/-- Every family that is left out has a representative behind the cut. -/
theorem exists_dropped {other : FamilyCandidate}
    (hother : other ∈ scoreRefs unicode fromStr features refs)
    (hout : LeftOut (rankCandidates unicode fromStr features refs k) other.familyId) :
    ∃ best ∈ (representatives unicode fromStr features refs).drop k,
      best.distance ≤ other.distance := by
  rcases exists_representative hother with ⟨best, hbest, hfamily⟩
  refine ⟨best, ?_, ?_⟩
  · rw [mem_drop_representatives_iff, hfamily]
    exact ⟨hbest, hout⟩
  · exact distance_le_of_versionKey
      ((IsRepresentative.of_mem hbest).least other hother hfamily.symm)

theorem distance_le_of_leftOut {candidate other : FamilyCandidate}
    (hcandidate : candidate ∈ (rankCandidates unicode fromStr features refs k).candidates)
    (hother : other ∈ scoreRefs unicode fromStr features refs)
    (hout : LeftOut (rankCandidates unicode fromStr features refs k) other.familyId) :
    candidate.distance ≤ other.distance := by
  rcases exists_dropped unicode fromStr features refs k hother hout with ⟨best, hbest, hle⟩
  have hkept := unranked_mem_take unicode fromStr features refs k hcandidate
  have hlt := (pairwise_take_drop unicode fromStr features refs k).2 _ hkept best hbest
  calc
    candidate.distance = candidate.unranked.distance := rfl
    _ ≤ best.distance := distance_le_of_rankingKey hlt.le
    _ ≤ other.distance := hle

theorem ties_eq :
    (rankCandidates unicode fromStr features refs k).ties =
      match (rankCandidates unicode fromStr features refs k).candidates.getLast? with
      | some boundary =>
        (((representatives unicode fromStr features refs).drop k).filter fun candidate ↦
          approxEq candidate.distance boundary.distance).map fun candidate ↦
            { candidate with
              rank := (rankCandidates unicode fromStr features refs k).candidates.length }
      | none => [] := by
  have hdrop : (representatives unicode fromStr features refs).drop
      (rankCandidates unicode fromStr features refs k).candidates.length =
      (representatives unicode fromStr features refs).drop k := by
    rw [length_candidates]
    rcases le_total k (representatives unicode fromStr features refs).length with hle | hge
    · rw [min_eq_left hle]
    · rw [min_eq_right hge, List.drop_length, List.drop_eq_nil_of_le hge]
  rw [← hdrop]
  rfl

theorem mem_ties_iff {tie : FamilyCandidate} :
    tie ∈ (rankCandidates unicode fromStr features refs k).ties ↔
      ∃ boundary,
        (rankCandidates unicode fromStr features refs k).candidates.getLast? = some boundary ∧
        tie.rank = (rankCandidates unicode fromStr features refs k).candidates.length ∧
        IsRepresentative (scoreRefs unicode fromStr features refs) tie.unranked ∧
        LeftOut (rankCandidates unicode fromStr features refs k) tie.familyId ∧
        |tie.distance - boundary.distance| < 1 / 10 ^ 6 := by
  have hrank := rank_scoreRefs unicode fromStr features refs
  rw [ties_eq]
  cases (rankCandidates unicode fromStr features refs k).candidates.getLast? with
  | none => simp
  | some boundary =>
      simp only [List.mem_map, List.mem_filter, mem_drop_representatives_iff,
        mem_representatives_iff, approxEq, decide_eq_true_eq, Option.some.injEq, exists_eq_left']
      constructor
      · rintro ⟨best, ⟨⟨hbest, hout⟩, hnear⟩, rfl⟩
        refine ⟨rfl, ?_, hout, hnear⟩
        have hunranked : best.unranked = best := by
          rcases best with ⟨_, _, _, _, _⟩
          exact congrArg _ (hrank _ hbest.mem).symm
        change IsRepresentative _ best.unranked
        rwa [hunranked]
      · rintro ⟨htie, hbest, hout, hnear⟩
        refine ⟨tie.unranked, ⟨⟨hbest, hout⟩, hnear⟩, ?_⟩
        rcases tie with ⟨_, _, _, _, _⟩
        exact congrArg _ htie.symm

theorem pairwise_candidates :
    (rankCandidates unicode fromStr features refs k).candidates.Pairwise fun left right ↦
      rankingKey left < rankingKey right ∧ left.familyId ≠ right.familyId := by
  have hsorted := (pairwise_take_drop unicode fromStr features refs k).1.and
    (pairwise_familyId_familyRepresentatives (scoreRefs unicode fromStr features refs))
  have hkept := hsorted.sublist (List.take_sublist k _)
  rw [← unranked_candidates, List.pairwise_map] at hkept
  exact hkept

theorem pairwise_ties :
    (rankCandidates unicode fromStr features refs k).ties.Pairwise fun left right ↦
      rankingKey left < rankingKey right := by
  rw [ties_eq]
  cases (rankCandidates unicode fromStr features refs k).candidates.getLast? with
  | none => exact List.Pairwise.nil
  | some boundary =>
      have hdropped := (pairwise_take_drop unicode fromStr features refs k).1.sublist
        (List.drop_sublist k _)
      exact List.pairwise_map.mpr (hdropped.sublist List.filter_sublist)

theorem families_scoreRefs :
    (scoreRefs unicode fromStr features refs).map (·.familyId) = refs.map (·.familyId) := by
  rw [scoreRefs, List.map_map]
  rfl

/-- The result is known by the set of schemas. It has the nearest families with the ranks from one
on, each by its best version and strictly ordered by distance and name, and the ties are the
families left out within the tolerance of the last of them. -/
theorem rankCandidates_canonical :
    (∀ others, (∀ ref, ref ∈ others ↔ ref ∈ refs) →
      rankCandidates unicode fromStr features others k =
        rankCandidates unicode fromStr features refs k) ∧
    ((rankCandidates unicode fromStr features refs k).candidates.length =
        min k (refs.map (·.familyId)).toFinset.card ∧
      (rankCandidates unicode fromStr features refs k).candidates.map (·.rank) =
        List.range' 1 (rankCandidates unicode fromStr features refs k).candidates.length ∧
      (rankCandidates unicode fromStr features refs k).candidates.Pairwise fun left right ↦
        rankingKey left < rankingKey right ∧ left.familyId ≠ right.familyId) ∧
    (∀ candidate ∈ (rankCandidates unicode fromStr features refs k).candidates,
      IsRepresentative (scoreRefs unicode fromStr features refs) candidate.unranked) ∧
    (∀ candidate ∈ (rankCandidates unicode fromStr features refs k).candidates,
      ∀ other ∈ scoreRefs unicode fromStr features refs,
        LeftOut (rankCandidates unicode fromStr features refs k) other.familyId →
          candidate.distance ≤ other.distance) ∧
    (rankCandidates unicode fromStr features refs k).ties.Pairwise
      (fun left right ↦ rankingKey left < rankingKey right) ∧
    ∀ tie, tie ∈ (rankCandidates unicode fromStr features refs k).ties ↔
      ∃ boundary,
        (rankCandidates unicode fromStr features refs k).candidates.getLast? = some boundary ∧
        tie.rank = (rankCandidates unicode fromStr features refs k).candidates.length ∧
        IsRepresentative (scoreRefs unicode fromStr features refs) tie.unranked ∧
        LeftOut (rankCandidates unicode fromStr features refs k) tie.familyId ∧
        |tie.distance - boundary.distance| < 1 / 10 ^ 6 := by
  refine ⟨fun others hsame ↦ rankCandidates_eq unicode fromStr features refs k hsame,
    ⟨?_, ?_, pairwise_candidates unicode fromStr features refs k⟩, ?_, ?_,
    pairwise_ties unicode fromStr features refs k,
    fun tie ↦ mem_ties_iff unicode fromStr features refs k⟩
  · rw [← families_scoreRefs unicode fromStr features refs, ← length_familyRepresentatives]
    exact length_candidates unicode fromStr features refs k
  · have hranks := map_rank_ranked ((representatives unicode fromStr features refs).take k)
    rwa [← length_ranked] at hranks
  · intro candidate hcandidate
    have hkept := unranked_mem_take unicode fromStr features refs k hcandidate
    exact IsRepresentative.of_mem (List.mem_of_mem_take hkept)
  · intro candidate hcandidate other hother hout
    exact distance_le_of_leftOut unicode fromStr features refs k hcandidate hother hout

end

/-- Two families that are listed twice in another order. -/
theorem rankCandidates_canonical_twice :
    rankCandidates .ascii sampleReader (extractFeatures .ascii .default)
        (sampleFamilies.reverse ++ sampleFamilies) 5 =
      rankCandidates .ascii sampleReader (extractFeatures .ascii .default)
        sampleFamilies 5 :=
  (rankCandidates_canonical .ascii sampleReader _ sampleFamilies 5).1 _ (by simp)

end Deblob.Retrieval
