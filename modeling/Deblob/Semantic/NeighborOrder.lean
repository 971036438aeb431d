import Deblob.Lib.RankedList
import Deblob.Semantic.NeighborCoverage
import Mathlib.Algebra.Order.BigOperators.Group.Finset
import Mathlib.Order.Std

/-!
# The order of the neighbors

Neighbors of one query are compared by strength, by a fraction, by the number of shared anchors and
by schema id. Fractions are cross-multiplied, which orders them as long as no denominator is zero.
If a denominator is zero then no feature of the query has any weight, so every numerator is zero and
the fractions all tie. So the neighbors of one query are strictly ordered by the comparison, and the
ranking does not depend on the order in which the store lists the candidates.
-/

namespace Deblob.Semantic

open Core Lib Redis Signature

/-! ## Fractions of one query -/

/-- A neighbor that some candidate of the query is scored as. -/
structure Scored (query : SemanticSignature) (idf : Bytes → ℕ) where
  neighbor : Neighbor
  scored : ∃ candidate, scoreCandidate query idf candidate = some neighbor

theorem Scored.score_eq {query : SemanticSignature} {idf : Bytes → ℕ} (item : Scored query idf) :
    ∃ other, item.neighbor.score = similarityWeighted query other idf := by
  rcases item with ⟨neighbor, candidate, hscored⟩
  unfold scoreCandidate at hscored
  dsimp only at hscored
  split_ifs at hscored
  cases hscored
  exact ⟨candidate.signature, rfl⟩

/-- A feature of the query that has weight is in every denominator. -/
theorem denominator_pos {query other : SemanticSignature} {idf : Bytes → ℕ} {key : Bytes}
    (hcount : 0 < query.count key) (hweight : classWeight key * idf key ≠ 0) :
    0 < (similarityWeighted query other idf).denominator := by
  have hkey : key ∈ unionKeys query other :=
    Finset.mem_union_left _ (List.mem_toFinset.mpr (mem_featureKeys_of_count hcount))
  have hterm : 0 < classWeight key * idf key * max (query.count key) (other.count key) :=
    Nat.mul_pos (Nat.pos_of_ne_zero hweight) (lt_of_lt_of_le hcount (le_max_left _ _))
  exact lt_of_lt_of_le hterm (Finset.single_le_sum
    (f := fun key ↦ classWeight key * idf key * max (query.count key) (other.count key))
    (fun _ _ ↦ Nat.zero_le _) hkey)

/-- Without such a feature every numerator is zero. -/
theorem numerator_eq_zero {query other : SemanticSignature} {idf : Bytes → ℕ}
    (hweights : ∀ key, 0 < query.count key → classWeight key * idf key = 0) :
    (similarityWeighted query other idf).numerator = 0 := by
  unfold similarityWeighted
  dsimp only
  apply Finset.sum_eq_zero
  intro key _
  rcases Nat.eq_zero_or_pos (query.count key) with hcount | hcount
  · rw [hcount, Nat.zero_min, Nat.mul_zero]
  · rw [hweights key hcount, Nat.zero_mul]

/-- The scores of one query are proper fractions, or they all have numerator zero. -/
theorem denominators_pos_or_numerators_zero (query : SemanticSignature) (idf : Bytes → ℕ) :
    (∀ item : Scored query idf, 0 < item.neighbor.score.denominator) ∨
      ∀ item : Scored query idf, item.neighbor.score.numerator = 0 := by
  by_cases hweights : ∀ key, 0 < query.count key → classWeight key * idf key = 0
  · right
    intro item
    rcases item.score_eq with ⟨other, hscore⟩
    rw [hscore]
    exact numerator_eq_zero hweights
  · left
    push Not at hweights
    rcases hweights with ⟨key, hcount, hweight⟩
    intro item
    rcases item.score_eq with ⟨other, hscore⟩
    rw [hscore]
    exact denominator_pos hcount hweight

theorem isLE_cmpRank {score other : Score} :
    (score.cmpRank other).isLE ↔
      score.numerator * other.denominator ≤ other.numerator * score.denominator :=
  Nat.isLE_compare

/-- Fractions are ordered by cross-multiplication. -/
theorem isLE_cmpRank_trans {left middle right : Score} (hmiddle : 0 < middle.denominator)
    (hleft : (left.cmpRank middle).isLE) (hright : (middle.cmpRank right).isLE) :
    (left.cmpRank right).isLE := by
  rw [isLE_cmpRank] at hleft hright ⊢
  apply Nat.le_of_mul_le_mul_right _ hmiddle
  calc left.numerator * right.denominator * middle.denominator
      = left.numerator * middle.denominator * right.denominator := Nat.mul_right_comm _ _ _
    _ ≤ middle.numerator * left.denominator * right.denominator := Nat.mul_le_mul_right _ hleft
    _ = middle.numerator * right.denominator * left.denominator := Nat.mul_right_comm _ _ _
    _ ≤ right.numerator * middle.denominator * left.denominator := Nat.mul_le_mul_right _ hright
    _ = right.numerator * left.denominator * middle.denominator := Nat.mul_right_comm _ _ _

section

variable (query : SemanticSignature) (idf : Bytes → ℕ)

instance transCmp_score :
    Std.TransCmp fun left right : Scored query idf ↦ left.neighbor.score.cmpRank right.neighbor.score where
  eq_swap := (Nat.compare_swap _ _).symm
  isLE_trans {left middle right} hleft hright := by
    rcases denominators_pos_or_numerators_zero query idf with hpos | hzero
    · exact isLE_cmpRank_trans (hpos middle) hleft hright
    · rw [isLE_cmpRank, hzero left, Nat.zero_mul]
      exact Nat.zero_le _

/-- The comparison of neighbors on those of one query. -/
def cmpScored (left right : Scored query idf) : Ordering := cmpNeighbors left.neighbor right.neighbor

instance transCmp_scored : Std.TransCmp (cmpScored query idf) := by
  have hstrength : Std.TransCmp fun left right : Scored query idf ↦
      compare right.neighbor.strength left.neighbor.strength :=
    @Std.TransCmp.opposite _ (compareOn fun item : Scored query idf ↦ item.neighbor.strength) _
  have hscore : Std.TransCmp fun left right : Scored query idf ↦
      right.neighbor.score.cmpRank left.neighbor.score :=
    @Std.TransCmp.opposite _ _ (transCmp_score query idf)
  have hanchors : Std.TransCmp fun left right : Scored query idf ↦
      compare right.neighbor.sharedAnchorCount left.neighbor.sharedAnchorCount :=
    @Std.TransCmp.opposite _
      (compareOn fun item : Scored query idf ↦ item.neighbor.sharedAnchorCount) _
  have hids : Std.TransCmp fun left right : Scored query idf ↦
      compare left.neighbor.schemaId.asStr right.neighbor.schemaId.asStr :=
    inferInstanceAs
      (Std.TransCmp (compareOn fun item : Scored query idf ↦ item.neighbor.schemaId.asStr))
  exact inferInstanceAs (Std.TransCmp (compareLex _ (compareLex _ (compareLex _ _))))

end

theorem schemaId_of_cmp_eq {left right : Neighbor} (hcmp : cmpNeighbors left right = .eq) :
    left.schemaId = right.schemaId := by
  unfold cmpNeighbors at hcmp
  simp only [Ordering.then_eq_eq, compare_eq_iff_eq] at hcmp
  exact DigestId.asStr_injective hcmp.2.2.2

/-! ## Ranking candidates -/

section

variable {query : SemanticSignature} {idf : Bytes → ℕ}

theorem schemaId_of_scoreCandidate {candidate : Candidate} {neighbor : Neighbor}
    (hscored : scoreCandidate query idf candidate = some neighbor) :
    neighbor.schemaId = candidate.schemaId := by
  unfold scoreCandidate at hscored
  dsimp only at hscored
  split_ifs at hscored
  cases hscored
  rfl

/-- Neighbors that were scored, each with its candidate. -/
theorem exists_scored {neighbors : List Neighbor}
    (hscored : ∀ neighbor ∈ neighbors,
      ∃ candidate, scoreCandidate query idf candidate = some neighbor) :
    ∃ items : List (Scored query idf), items.map Scored.neighbor = neighbors := by
  refine ⟨neighbors.pmap Scored.mk hscored, ?_⟩
  rw [List.map_pmap, List.pmap_eq_map, List.map_id']

theorem nodup_scored {candidates : List Candidate}
    (hids : (candidates.map Candidate.schemaId).Nodup) :
    ((candidates.filterMap (scoreCandidate query idf)).map Neighbor.schemaId).Nodup :=
  hids.sublist (sublist_map_filterMap (fun _ _ ↦ schemaId_of_scoreCandidate) candidates)

/-- No two neighbors of distinct schemas tie. -/
theorem strict_of_nodup {items : List (Scored query idf)}
    (hids : ((items.map Scored.neighbor).map Neighbor.schemaId).Nodup) :
    items.Pairwise fun left right ↦ cmpScored query idf left right ≠ .eq := by
  rw [List.map_map] at hids
  apply (List.pairwise_map.mp hids).imp
  intro left right hne heq
  exact hne (schemaId_of_cmp_eq heq)

theorem Scored.neighbor_injective : Function.Injective (@Scored.neighbor query idf) := by
  rintro ⟨left, _⟩ ⟨right, _⟩ rfl
  rfl

theorem map_rankBy_scored (items : List (Scored query idf)) :
    (rankBy (cmpScored query idf) items).map Scored.neighbor =
      rankBy cmpNeighbors (items.map Scored.neighbor) :=
  map_rankBy fun _ _ ↦ rfl

theorem ranked_map_scored (items : List (Scored query idf)) :
    Ranked cmpNeighbors (items.map Scored.neighbor) ↔ Ranked (cmpScored query idf) items :=
  List.pairwise_map

/-- Neighbors scored from candidates with distinct ids are ranked in one way, in whatever order the
candidates are listed. -/
theorem ranked_scored {items : List (Scored query idf)}
    (hids : ((items.map Scored.neighbor).map Neighbor.schemaId).Nodup) :
    Ranked cmpNeighbors (rankBy cmpNeighbors (items.map Scored.neighbor)) ∧
      (Ranked cmpNeighbors (items.map Scored.neighbor) →
        items.map Scored.neighbor = rankBy cmpNeighbors (items.map Scored.neighbor)) ∧
      ∀ others : List (Scored query idf),
        (others.map Scored.neighbor).Perm (items.map Scored.neighbor) →
        rankBy cmpNeighbors (others.map Scored.neighbor) =
          rankBy cmpNeighbors (items.map Scored.neighbor) := by
  have hstrict := strict_of_nodup hids
  refine ⟨?_, fun hranked ↦ ?_, fun others hperm ↦ ?_⟩
  · rw [← map_rankBy_scored, ranked_map_scored]
    exact ranked_rankBy hstrict
  · rw [← map_rankBy_scored]
    exact congrArg (List.map Scored.neighbor) (((ranked_map_scored items).mp hranked).eq_of_perm
      (ranked_rankBy hstrict) (rankBy_perm items).symm)
  · have hothers := (List.map_perm_map_iff Scored.neighbor_injective).mp hperm
    rw [← map_rankBy_scored, ← map_rankBy_scored, rankBy_perm_eq hstrict hothers.symm]

/-- The scored candidates of a query with distinct ids are strictly ranked; that is their only
strict ranking, and it does not depend on their order. -/
theorem ranked_candidates {candidates : List Candidate} {found : List Neighbor}
    (hids : (candidates.map Candidate.schemaId).Nodup)
    (hfound : found.Perm (candidates.filterMap (scoreCandidate query idf))) :
    Ranked cmpNeighbors (rankBy cmpNeighbors found) ∧
      (Ranked cmpNeighbors found → found = rankBy cmpNeighbors found) ∧
      ∀ other, other.Perm found → rankBy cmpNeighbors other = rankBy cmpNeighbors found := by
  have hscored (neighbors : List Neighbor)
      (hperm : neighbors.Perm (candidates.filterMap (scoreCandidate query idf))) :
      ∃ items : List (Scored query idf), items.map Scored.neighbor = neighbors := by
    apply exists_scored
    intro neighbor hneighbor
    rcases List.mem_filterMap.mp (hperm.mem_iff.mp hneighbor) with ⟨candidate, -, hscored⟩
    exact ⟨candidate, hscored⟩
  have hnodup : (found.map Neighbor.schemaId).Nodup :=
    (hfound.map Neighbor.schemaId).nodup_iff.mpr (nodup_scored hids)
  rcases hscored found hfound with ⟨items, rfl⟩
  rcases ranked_scored hnodup with ⟨hranked, hunique, hothers⟩
  refine ⟨hranked, hunique, fun other hperm ↦ ?_⟩
  rcases hscored other (hperm.trans hfound) with ⟨others, rfl⟩
  exact hothers others hperm

end

/-! ## Stores that list the candidates in another order -/

/-- The candidate an id is loaded as. -/
def candidateOf (store : SemanticReads SemanticMetadata) (querySchId candidateId : SchemaId) :
    Option Candidate :=
  if candidateId = querySchId then none
  else match store.activeRevision candidateId with
    | .ok (some (revision, _)) =>
      some ⟨candidateId, revision.hash.revisionId, semanticSignature revision.metadata⟩
    | _ => none

theorem candidateOf_query (store : SemanticReads SemanticMetadata) (querySchId : SchemaId) :
    candidateOf store querySchId querySchId = none :=
  if_pos rfl

theorem candidateOf_eq {store : SemanticReads SemanticMetadata} {querySchId candidateId : SchemaId}
    (hquery : candidateId ≠ querySchId) {answer : Option (Revision SemanticMetadata × ℕ)}
    (hanswer : store.activeRevision candidateId = .ok answer) :
    candidateOf store querySchId candidateId = answer.map fun (revision, _) ↦
      ⟨candidateId, revision.hash.revisionId, semanticSignature revision.metadata⟩ := by
  unfold candidateOf
  rw [if_neg hquery, hanswer]
  cases answer <;> rfl

/-- Loading fails only if a revision cannot be read. -/
theorem loadCandidates_eq_ok {store : SemanticReads SemanticMetadata} {querySchId : SchemaId}
    {candidateIds : List SchemaId} {candidates : List Candidate} :
    loadCandidates store querySchId candidateIds = .ok candidates ↔
      (∀ candidateId ∈ candidateIds, candidateId ≠ querySchId →
        ∃ answer, store.activeRevision candidateId = .ok answer) ∧
      candidateIds.filterMap (candidateOf store querySchId) = candidates := by
  induction candidateIds generalizing candidates with
  | nil => simp [loadCandidates]
  | cons candidateId candidateIds ih =>
      unfold loadCandidates
      rw [List.forall_mem_cons]
      split_ifs with hquery
      · rw [ih, hquery, List.filterMap_cons_none (candidateOf_query store querySchId)]
        simp
      · rw [Lib.Except.bind_eq_ok]
        constructor
        · rintro ⟨answer, hanswer, hrest⟩
          have hcandidate := candidateOf_eq hquery hanswer
          cases answer with
          | none =>
              rcases ih.mp hrest with ⟨hok, rfl⟩
              exact ⟨⟨fun _ ↦ ⟨_, hanswer⟩, hok⟩, List.filterMap_cons_none hcandidate⟩
          | some answer =>
              rcases Lib.Except.bind_eq_ok.mp hrest with ⟨loaded, hloaded, hcons⟩
              rcases ih.mp hloaded with ⟨hok, rfl⟩
              refine ⟨⟨fun _ ↦ ⟨_, hanswer⟩, hok⟩, ?_⟩
              rw [List.filterMap_cons_some hcandidate]
              exact Except.ok.inj hcons
        · rintro ⟨⟨hhead, hok⟩, rfl⟩
          rcases hhead hquery with ⟨answer, hanswer⟩
          have hcandidate := candidateOf_eq hquery hanswer
          refine ⟨answer, hanswer, ?_⟩
          cases answer with
          | none =>
              rw [List.filterMap_cons_none hcandidate]
              exact ih.mpr ⟨hok, rfl⟩
          | some answer =>
              rw [List.filterMap_cons_some hcandidate]
              exact Lib.Except.bind_eq_ok.mpr ⟨_, ih.mpr ⟨hok, rfl⟩, rfl⟩

theorem schemaId_candidateOf {store : SemanticReads SemanticMetadata}
    {querySchId candidateId : SchemaId} {candidate : Candidate}
    (hcandidate : candidateOf store querySchId candidateId = some candidate) :
    candidate.schemaId = candidateId := by
  unfold candidateOf at hcandidate
  split_ifs at hcandidate
  split at hcandidate
  · cases hcandidate
    rfl
  · cases hcandidate

/-- Every loaded candidate carries its own id, so distinct ids stay distinct. -/
theorem nodup_loaded {store : SemanticReads SemanticMetadata} {querySchId : SchemaId}
    {candidateIds : List SchemaId} {candidates : List Candidate} (hids : candidateIds.Nodup)
    (hload : loadCandidates store querySchId candidateIds = .ok candidates) :
    (candidates.map Candidate.schemaId).Nodup := by
  rcases loadCandidates_eq_ok.mp hload with ⟨-, rfl⟩
  have hsublist := sublist_map_filterMap
    (fun id candidate ↦ @schemaId_candidateOf store querySchId id candidate) candidateIds
  rw [List.map_id'] at hsublist
  exact hids.sublist hsublist

theorem sortedKeys_rawToHex (query : SemanticSignature) (candidates : List Candidate) :
    SortedKeys (rawToHex query candidates) := by
  unfold rawToHex
  generalize ((query :: candidates.map Candidate.signature).flatMap fun signature ↦
    signature.featureKeys.zip signature.featureKeysHex) = entries
  induction entries using List.reverseRecOn with
  | nil => exact List.Pairwise.nil
  | append_singleton entries entry ih =>
      rw [List.foldl_append]
      exact sortedKeys_insertWith ih _ _ _

/-- The features that are read are those of the query and of the candidates. -/
theorem mem_keys_rawToHex {query : SemanticSignature} {candidates : List Candidate} {key : Bytes} :
    key ∈ (rawToHex query candidates).map Prod.fst ↔
      ∃ signature ∈ query :: candidates.map Candidate.signature, key ∈ signature.featureKeys := by
  have hentries (entries map : List (Bytes × String)) :
      key ∈ (entries.foldl (fun map entry ↦ insertWith entry.1 entry.2 id map) map).map Prod.fst ↔
        key ∈ entries.map Prod.fst ∨ key ∈ map.map Prod.fst := by
    induction entries generalizing map with
    | nil => simp
    | cons entry entries ih =>
        rw [List.foldl_cons, ih, mem_keys_insertWith, List.map_cons, List.mem_cons]
        tauto
  have hkeys (signature : SemanticSignature) :
      (signature.featureKeys.zip signature.featureKeysHex).map Prod.fst = signature.featureKeys := by
    rw [SemanticSignature.featureKeysHex, ← List.map_prod_left_eq_zip, List.map_map]
    exact List.map_id _
  unfold rawToHex
  rw [hentries, List.map_flatMap]
  simp only [hkeys, List.map_nil, List.not_mem_nil, or_false, List.mem_flatMap]

/-- The features are read in one order, however the candidates are listed. -/
theorem rawToHex_perm (query : SemanticSignature) {left right : List Candidate}
    (hperm : left.Perm right) : rawToHex query left = rawToHex query right := by
  have hkeys : (rawToHex query left).map Prod.fst = (rawToHex query right).map Prod.fst := by
    have hsorted (candidates : List Candidate) :
        ((rawToHex query candidates).map Prod.fst).Pairwise (· < ·) :=
      List.pairwise_map.mpr (sortedKeys_rawToHex query candidates)
    have hmem : ((rawToHex query left).map Prod.fst).Perm
        ((rawToHex query right).map Prod.fst) := by
      apply (List.perm_ext_iff_of_nodup (sortedKeys_rawToHex query left).nodup_keys
        (sortedKeys_rawToHex query right).nodup_keys).mpr
      intro key
      rw [mem_keys_rawToHex, mem_keys_rawToHex]
      simp only [List.mem_cons, (hperm.map Candidate.signature).mem_iff]
    exact hmem.eq_of_pairwise (fun _ _ _ _ hlt hgt ↦ absurd hlt hgt.not_gt) (hsorted left)
      (hsorted right)
  have hvalues : (rawToHex query left).map Prod.snd = (rawToHex query right).map Prod.snd := by
    rw [(mem_rawToHex query left).1, (mem_rawToHex query right).1, hkeys]
  exact (List.zip_of_prod hkeys hvalues).trans (List.zip_of_prod rfl rfl).symm

/-- Two stores that answer alike, except for the order in which they list candidates. -/
structure SameUpToOrder (left right : SemanticReads SemanticMetadata) : Prop where
  activeRevision : left.activeRevision = right.activeRevision
  idfStats : left.idfStats = right.idfStats
  tooBroad : ∀ hexes, left.signatureCandidates hexes = .ok .tooBroad →
    right.signatureCandidates hexes = .ok .tooBroad
  bounded : ∀ hexes ids, left.signatureCandidates hexes = .ok (.bounded ids) →
    ids.Nodup ∧ ∃ others, right.signatureCandidates hexes = .ok (.bounded others) ∧ ids.Perm others

theorem loadCandidates_sameUpToOrder {left right : SemanticReads SemanticMetadata}
    (hsame : SameUpToOrder left right) {querySchId : SchemaId} {ids others : List SchemaId}
    (hperm : ids.Perm others) {candidates : List Candidate}
    (hload : loadCandidates left querySchId ids = .ok candidates) :
    ∃ loaded, loadCandidates right querySchId others = .ok loaded ∧ candidates.Perm loaded := by
  rcases loadCandidates_eq_ok.mp hload with ⟨hok, rfl⟩
  have hcandidateOf : candidateOf left querySchId = candidateOf right querySchId := by
    funext candidateId
    unfold candidateOf
    rw [hsame.activeRevision]
  refine ⟨others.filterMap (candidateOf right querySchId), loadCandidates_eq_ok.mpr ⟨?_, rfl⟩, ?_⟩
  · intro candidateId hmem hquery
    rw [← hsame.activeRevision]
    exact hok candidateId (hperm.mem_iff.mpr hmem) hquery
  · rw [← hcandidateOf]
    exact hperm.filterMap _

/-- The outcome that listed candidates are ranked to. -/
def Ranks (store : SemanticReads SemanticMetadata) (querySchId : SchemaId)
    (query : SemanticSignature) (ids : List SchemaId) (outcome : Option NeighborOutcome) : Prop :=
  ∃ candidates n dfs, loadCandidates store querySchId ids = .ok candidates ∧
    store.idfStats ((rawToHex query candidates).map Prod.snd) = .ok (n, dfs) ∧
    outcome = some (.found (rankBy cmpNeighbors (candidates.filterMap (scoreCandidate query
      (readMultiplier n (((rawToHex query candidates).map Prod.fst).zip dfs))))) n)

/-- The ways in which a search succeeds. -/
theorem rankedNeighbors_eq_ok {store : SemanticReads SemanticMetadata} {querySchId : SchemaId}
    {outcome : Option NeighborOutcome} :
    rankedNeighbors store querySchId = .ok outcome ↔
      (store.activeRevision querySchId = .ok none ∧ outcome = none) ∨
      ∃ revision etag nQuery dfs, store.activeRevision querySchId = .ok (some (revision, etag)) ∧
        store.idfStats (semanticSignature revision.metadata).featureKeysHex = .ok (nQuery, dfs) ∧
        ((¬ HasAnchor (semanticSignature revision.metadata) ∧ outcome = some .noAnchor) ∨
          HasAnchor (semanticSignature revision.metadata) ∧
            ∃ answer, store.signatureCandidates (unionHex (semanticSignature revision.metadata)
              (readMultiplier nQuery ((semanticSignature revision.metadata).featureKeys.zip dfs))) =
                .ok answer ∧
              match answer with
              | .tooBroad => outcome = some .tooBroad
              | .bounded ids =>
                Ranks store querySchId (semanticSignature revision.metadata) ids outcome) := by
  unfold rankedNeighbors
  rw [Lib.Except.bind_eq_ok]
  constructor
  · rintro ⟨active, hactive, hrest⟩
    cases active with
    | none => exact .inl ⟨hactive, (Except.ok.inj hrest).symm⟩
    | some active =>
        rcases active with ⟨revision, etag⟩
        rcases Lib.Except.bind_eq_ok.mp hrest with ⟨⟨nQuery, dfs⟩, hstats, hrest⟩
        refine .inr ⟨revision, etag, nQuery, dfs, hactive, hstats, ?_⟩
        dsimp only at hrest
        split_ifs at hrest with hanchor
        · rcases Lib.Except.bind_eq_ok.mp hrest with ⟨answer, hanswer, hrest⟩
          refine .inr ⟨hanchor, answer, hanswer, ?_⟩
          cases answer with
          | tooBroad => exact (Except.ok.inj hrest).symm
          | bounded ids =>
              rcases Lib.Except.bind_eq_ok.mp hrest with ⟨candidates, hload, hrest⟩
              rcases Lib.Except.bind_eq_ok.mp hrest with ⟨⟨n, dfs⟩, hidf, hrest⟩
              exact ⟨candidates, n, dfs, hload, hidf, (Except.ok.inj hrest).symm⟩
        · exact .inl ⟨hanchor, (Except.ok.inj hrest).symm⟩
  · rintro (⟨hactive, rfl⟩ | ⟨revision, etag, nQuery, dfs, hactive, hstats, hrest⟩)
    · exact ⟨none, hactive, rfl⟩
    · refine ⟨some (revision, etag), hactive, ?_⟩
      refine Lib.Except.bind_eq_ok.mpr ⟨(nQuery, dfs), hstats, ?_⟩
      dsimp only
      rcases hrest with ⟨hanchor, rfl⟩ | ⟨hanchor, answer, hanswer, hrest⟩
      · rw [if_pos hanchor]
        rfl
      · rw [if_neg (not_not.mpr hanchor)]
        refine Lib.Except.bind_eq_ok.mpr ⟨answer, hanswer, ?_⟩
        cases answer with
        | tooBroad =>
            cases hrest
            rfl
        | bounded ids =>
            rcases hrest with ⟨candidates, n, dfs, hload, hidf, rfl⟩
            exact Lib.Except.bind_eq_ok.mpr ⟨candidates, hload,
              Lib.Except.bind_eq_ok.mpr ⟨(n, dfs), hidf, rfl⟩⟩

theorem ranks_sameUpToOrder {left right : SemanticReads SemanticMetadata}
    (hsame : SameUpToOrder left right) {querySchId : SchemaId} {query : SemanticSignature}
    {ids others : List SchemaId} (hids : ids.Nodup) (hperm : ids.Perm others)
    {outcome : Option NeighborOutcome} (hranks : Ranks left querySchId query ids outcome) :
    Ranks right querySchId query others outcome := by
  rcases hranks with ⟨candidates, n, dfs, hload, hidf, rfl⟩
  rcases loadCandidates_sameUpToOrder hsame hperm hload with ⟨loaded, hloaded, hcandidates⟩
  have hfeatures := rawToHex_perm query hcandidates
  refine ⟨loaded, n, dfs, hloaded, ?_, ?_⟩
  · rw [← hsame.idfStats, ← hfeatures]
    exact hidf
  · rw [← hfeatures]
    rw [(ranked_candidates (nodup_loaded hids hload) (List.Perm.refl _)).2.2 _
      (hcandidates.filterMap _).symm]

/-- The outcome of a search does not depend on the order in which candidates are listed. -/
theorem neighbors_sameUpToOrder {left right : SemanticReads SemanticMetadata}
    (hsame : SameUpToOrder left right) {querySchId : SchemaId} {k : ℕ}
    {outcome : Option NeighborOutcome} (hfound : neighbors left querySchId k = .ok outcome) :
    neighbors right querySchId k = .ok outcome := by
  have hranked (outcome : Option NeighborOutcome)
      (houtcome : rankedNeighbors left querySchId = .ok outcome) :
      rankedNeighbors right querySchId = .ok outcome := by
    rw [rankedNeighbors_eq_ok] at houtcome ⊢
    rw [← hsame.activeRevision, ← hsame.idfStats]
    refine houtcome.imp_right ?_
    rintro ⟨revision, etag, nQuery, dfs, hactive, hstats, hrest⟩
    refine ⟨revision, etag, nQuery, dfs, hactive, hstats, hrest.imp_right ?_⟩
    rintro ⟨hanchor, answer, hanswer, hrest⟩
    refine ⟨hanchor, ?_⟩
    cases answer with
    | tooBroad => exact ⟨_, hsame.tooBroad _ hanswer, hrest⟩
    | bounded ids =>
        rcases hsame.bounded _ _ hanswer with ⟨hids, others, hothers, hperm⟩
        exact ⟨_, hothers, ranks_sameUpToOrder hsame hids hperm hrest⟩
  unfold neighbors at hfound ⊢
  cases houtcome : rankedNeighbors left querySchId with
  | error err =>
      rw [houtcome] at hfound
      cases hfound
  | ok full =>
      rw [hranked full houtcome, ← houtcome]
      exact hfound

/-- What a search returns is cut from the ranking of the candidates it loaded. -/
theorem exists_ranked_of_found {store : SemanticReads SemanticMetadata} {querySchId : SchemaId}
    {k n : ℕ} {list : List Neighbor}
    (hfound : neighbors store querySchId k = .ok (some (.found list n))) :
    ∃ query idf hexes ids candidates,
      store.signatureCandidates hexes = .ok (.bounded ids) ∧
      loadCandidates store querySchId ids = .ok candidates ∧
      list = (rankBy cmpNeighbors (candidates.filterMap (scoreCandidate query idf))).take k := by
  unfold neighbors at hfound
  cases houtcome : rankedNeighbors store querySchId with
  | error err =>
      rw [houtcome] at hfound
      cases hfound
  | ok full =>
      rw [houtcome] at hfound
      have hfull : full.map (NeighborOutcome.truncate k) = some (.found list n) :=
        Except.ok.inj hfound
      rcases Option.map_eq_some_iff.mp hfull with ⟨whole, rfl, hwhole⟩
      rcases rankedNeighbors_eq_ok.mp houtcome with ⟨-, hnone⟩ |
        ⟨revision, etag, nQuery, dfs, -, -, ⟨-, hnoAnchor⟩ | ⟨-, answer, hanswer, hrest⟩⟩
      · cases hnone
      · cases hnoAnchor
        cases hwhole
      · cases answer with
        | tooBroad =>
            cases hrest
            cases hwhole
        | bounded ids =>
            rcases hrest with ⟨candidates, total, dfs, hload, -, hlast⟩
            cases hlast
            cases hwhole
            exact ⟨_, _, _, ids, candidates, hanswer, hload, rfl⟩

/-- A store in which every schema asserts one event type, which is on all of 64 schemas. -/
def listedReads (ids : List SchemaId) : SemanticReads SemanticMetadata where
  activeRevision schId := .ok (some (⟨{
    revisionId := ⟨"rev_1"⟩
    schId := schId
    semId := .fromDigest (.replicate 32 0)
    canonicalBytesHex := ""
    metadataJson := ""
    previousRevisionId := none
    actor := ""
    reasonCode := ""
    reason := ""
    recordedAt := 0
    effectiveFrom := 0 }, sampleOther⟩, 1))
  signatureCandidates _ := .ok (.bounded ids)
  idfStats hexes := .ok (64, hexes.map fun _ ↦ 64)

end Deblob.Semantic
