import Deblob.Retrieval.Policy
import Deblob.Semantic.CanonicalTexts
import Mathlib.Tactic.Linarith

/-!
# Accepted matches are unambiguous nearest matches

The representatives of the families are ordered by distance, so the margin between the first two of
them separates the first family from every other one. The gates demand rank one and this margin, and
whatever the model answers, only one schema can pass them.
-/

namespace Deblob.Retrieval

open Core Lib Deblob.Monoid
open Semantic (readerOf profileText)
open Umbrella (Value)

/-! ## Representatives -/

/-- The best version of its family; the versions of every other family are farther away by the
margin. -/
structure NearestBy (margin : ℚ) (scored : List FamilyCandidate) (nearest : FamilyCandidate) :
    Prop where
  mem : nearest ∈ scored
  representative : ∀ other ∈ scored, other.familyId = nearest.familyId →
    versionKey nearest ≤ versionKey other
  apart : ∀ other ∈ scored, other.familyId ≠ nearest.familyId →
    nearest.distance + margin ≤ other.distance

/-- A nearest family is nearest by no margin, and its representative is the nearest of all. -/
theorem NearestBy.le {margin : ℚ} {scored : List FamilyCandidate} {nearest other : FamilyCandidate}
    (hnearest : NearestBy margin scored nearest) (hmargin : 0 ≤ margin) (hother : other ∈ scored) :
    nearest.distance ≤ other.distance := by
  by_cases hfamily : other.familyId = nearest.familyId
  · exact distance_le_of_versionKey (hnearest.representative other hother hfamily)
  · have hapart := hnearest.apart other hother hfamily
    linarith

/-- The margin of the first two representatives separates the first family from all others. -/
theorem nearestBy_of_representatives {margin : ℚ} {scored rest : List FamilyCandidate}
    {first second : FamilyCandidate}
    (hrepresentatives : familyRepresentatives scored = first :: second :: rest)
    (hmargin : margin ≤ second.distance - first.distance) : NearestBy margin scored first := by
  have hsorted := pairwise_sortOn rankingKey (leastOfGroups familyName versionKey scored)
  have hmem (candidate : FamilyCandidate) : candidate ∈ familyRepresentatives scored ↔
      candidate ∈ leastOfGroups familyName versionKey scored := mem_sortOn
  rw [← familyRepresentatives, hrepresentatives] at hsorted
  have hfirst : first ∈ leastOfGroups familyName versionKey scored := by
    rw [← hmem, hrepresentatives]
    exact List.mem_cons_self
  have hleast := mem_leastOfGroups hfirst
  have hsecond : ∀ candidate ∈ second :: rest, second.distance ≤ candidate.distance := by
    rw [List.forall_mem_cons]
    refine ⟨le_rfl, fun candidate hcandidate ↦ distance_le_of_rankingKey ?_⟩
    exact (List.pairwise_cons.mp (List.pairwise_cons.mp hsorted).2).1 candidate hcandidate
  constructor
  · exact hleast.1
  · exact fun other hother hfamily ↦ hleast.2 other hother (familyName_inj.mpr hfamily)
  · intro other hother hfamily
    rcases @exists_leastOfGroups _ _ _ _ _ familyName versionKey _ _ hother with
      ⟨least, hmemLeast, hname⟩
    have hle := (mem_leastOfGroups hmemLeast).2 other hother hname.symm
    have hne : least ≠ first := by
      intro heq
      exact hfamily (familyName_inj.mp (heq ▸ hname).symm)
    have htail : least ∈ second :: rest := by
      have hmemAll := (hmem least).mpr hmemLeast
      rw [hrepresentatives] at hmemAll
      exact (List.mem_cons.mp hmemAll).resolve_left hne
    have hdistance := distance_le_of_versionKey hle
    have hbehind := hsecond least htail
    linarith

/-- Rank one is the first of the ranked candidates. -/
theorem eq_head_of_rank_one {candidates : List FamilyCandidate} {found : FamilyCandidate}
    (hfound : found ∈ ranked candidates) (hrank : found.rank = 1) :
    ∃ first, candidates.head? = some first ∧ found = { first with rank := 1 } := by
  rcases List.mem_map.mp hfound with ⟨⟨candidate, index⟩, hmem, rfl⟩
  have hindex : index = 0 := Nat.succ.inj hrank
  subst hindex
  have hget := List.mem_zipIdx_iff_getElem?.mp hmem
  rw [← List.head?_eq_getElem?] at hget
  exact ⟨candidate, hget, rfl⟩

/-- A margin above zero is the distance between two candidates. -/
theorem exists_of_margin_pos {candidates : List FamilyCandidate}
    (hmargin : 0 < top1Top2Margin (ranked candidates)) :
    ∃ first second rest, candidates = first :: second :: rest ∧
      top1Top2Margin (ranked candidates) = second.distance - first.distance := by
  match candidates with
  | [] => exact absurd hmargin (lt_irrefl 0)
  | [_] => exact absurd hmargin (lt_irrefl 0)
  | first :: second :: rest => exact ⟨first, second, rest, rfl, rfl⟩

/-! ## Accepted answers -/

section

variable {unicode : Unicode} {fromStr : Bytes → Except String Value} {candidate : Profile}
  {refs : List FamilyRef} {k sampleCount : ℕ} {fields : List (List String)}
  {answer : Except InferenceError InferenceDecision}

/-- An accepted answer proposes a match. -/
theorem exists_matchSchema {retrieval : RetrievalResult}
    (haccept : (maybeClassify retrieval sampleCount fields answer).policyOutcome.wouldAccept) :
    ∃ schemaId relation, answer = .ok (.matchSchema schemaId relation) := by
  have hmatch := (wouldAccept_iff.mp haccept).1
  match answer with
  | .ok (.matchSchema schemaId relation) => exact ⟨schemaId, relation, rfl⟩
  | .ok (.newCandidate _) => cases hmatch
  | .ok (.abstain _) => cases hmatch
  | .error _ => cases hmatch

/-- The schemas of the neighborhood, scored by their distance from the candidate. -/
def scoredRefs (unicode : Unicode) (fromStr : Bytes → Except String Value) (candidate : Profile)
    (refs : List FamilyRef) : List FamilyCandidate :=
  scoreRefs unicode fromStr
    (extractFeatures unicode (fieldSigFromNode candidate.count candidate.root)) refs

/-- A candidate of rank one, with a margin above zero, is the first representative. -/
theorem found_eq_first {found : FamilyCandidate}
    (hfound : found ∈ (retrieveTopk unicode fromStr candidate refs k).candidates)
    (hrank : found.rank = 1)
    (hmargin : 0 < (retrieveTopk unicode fromStr candidate refs k).top1Top2Margin) :
    ∃ first second rest,
      familyRepresentatives (scoredRefs unicode fromStr candidate refs) =
        first :: second :: rest ∧
      found = { first with rank := 1 } ∧
      (retrieveTopk unicode fromStr candidate refs k).top1Top2Margin =
        second.distance - first.distance := by
  rcases exists_of_margin_pos hmargin with ⟨first, second, rest, htake, hdifference⟩
  rcases eq_head_of_rank_one hfound hrank with ⟨head, hhead, hfirst⟩
  rw [htake, List.head?_cons, Option.some.injEq] at hhead
  have hall := List.take_append_drop k
    (familyRepresentatives (scoredRefs unicode fromStr candidate refs))
  change (familyRepresentatives (scoredRefs unicode fromStr candidate refs)).take k = _ at htake
  rw [htake, List.cons_append, List.cons_append] at hall
  exact ⟨first, second, _, hall.symm, hhead ▸ hfirst, hdifference⟩

/-- What the policy accepts is the representative of the nearest family, for any answer. -/
theorem accepted_nearest
    (haccept : (maybeClassify (retrieveTopk unicode fromStr candidate refs k) sampleCount fields
      answer).policyOutcome.wouldAccept) :
    ∃ schemaId relation nearest, answer = .ok (.matchSchema schemaId relation) ∧
      NearestBy policyMinMargin (scoredRefs unicode fromStr candidate refs) nearest ∧
      nearest.schemaId = schemaId ∧ nearest.distance ≤ policyMaxDistance ∧
      relation.eligible = true ∧ policyMinObservations ≤ sampleCount := by
  rcases exists_matchSchema haccept with ⟨schemaId, relation, rfl⟩
  rcases wouldAccept_iff.mp haccept with
    ⟨-, hrank, ⟨distance, hselected, hdistance⟩, hmargin, hobservations, hrelation, -⟩
  rcases Option.map_eq_some_iff.mp hrank with ⟨found, hfind, hone⟩
  change List.find? _ _ = some found at hfind
  change distance ∈ (List.find? _ _).map FamilyCandidate.distance at hselected
  rw [hfind, Option.map_some, Option.mem_some_iff] at hselected
  have hschema : found.schemaId = schemaId := by simpa using List.find?_some hfind
  have heligible : relation.eligible = true := by
    rcases hrelation with ⟨other, hother, heligible⟩
    rwa [Option.mem_some_iff.mp hother]
  have hpositive : 0 < policyMinMargin := by norm_num [policyMinMargin]
  rcases found_eq_first (List.mem_of_find?_eq_some hfind) hone (hpositive.trans_le hmargin) with
    ⟨first, second, rest, hrepresentatives, rfl, hdifference⟩
  have hapart : policyMinMargin ≤ second.distance - first.distance := hmargin.trans_eq hdifference
  exact ⟨schemaId, relation, first, rfl, nearestBy_of_representatives hrepresentatives hapart,
    hschema, hselected ▸ hdistance, heligible, hobservations⟩

/-- The nearest family, if there is one, has one representative. -/
theorem NearestBy.schemaId_unique {margin : ℚ} {scored : List FamilyCandidate}
    {first second : FamilyCandidate} (hmargin : 0 < margin) (hfirst : NearestBy margin scored first)
    (hsecond : NearestBy margin scored second) : first.schemaId = second.schemaId := by
  have hfamily : second.familyId = first.familyId := by
    by_contra hne
    have hapart := hfirst.apart second hsecond.mem hne
    have hback := hsecond.apart first hfirst.mem (Ne.symm hne)
    linarith
  have hkey : versionKey first = versionKey second :=
    le_antisymm (hfirst.representative second hsecond.mem hfamily)
      (hsecond.representative first hfirst.mem hfamily.symm)
  have htext : first.schemaId.asStr = second.schemaId.asStr :=
    congrArg (fun key ↦ (ofLex (ofLex key).2).2) hkey
  exact DigestId.asStr_injective htext

/-- Whatever the model answers, an accepted match selects the representative of the one nearest
family, within the greatest distance and apart from every other family by the margin. -/
theorem accepted_unambiguous_nearest (unicode : Unicode)
    (fromStr : Bytes → Except String Value) (candidate : Profile) (refs : List FamilyRef)
    (k sampleCount : ℕ) (fields : List (List String))
    (answer : Except InferenceError InferenceDecision)
    (haccept : (maybeClassify (retrieveTopk unicode fromStr candidate refs k) sampleCount fields
      answer).policyOutcome.wouldAccept) :
    let retrieval := retrieveTopk unicode fromStr candidate refs k
    let scored := scoredRefs unicode fromStr candidate refs
    let classified := maybeClassify retrieval sampleCount fields answer
    ∃ schemaId relation nearest,
      (answer = .ok (.matchSchema schemaId relation) ∧
        classified.counterfactualLiveDisposition = .wouldAcceptMatch schemaId relation ∧
        trustedVerdict (.matchSchema schemaId relation) classified.inputs .autoApply =
          .apply schemaId relation) ∧
      (NearestBy policyMinMargin scored nearest ∧ nearest.schemaId = schemaId ∧
        (∀ other ∈ scored, nearest.distance ≤ other.distance) ∧
        nearest.distance ≤ policyMaxDistance) ∧
      (relation = .exact ∨ relation = .compatibleDrift) ∧ policyMinObservations ≤ sampleCount ∧
      ∀ (otherCount : ℕ) (otherFields : List (List String)) (other : SchemaId)
        (otherRelation : Relation),
        (maybeClassify retrieval otherCount otherFields
          (.ok (.matchSchema other otherRelation))).policyOutcome.wouldAccept →
            other = schemaId := by
  intro retrieval scored classified
  have hpositive : 0 < policyMinMargin := by norm_num [policyMinMargin]
  rcases accepted_nearest haccept with
    ⟨schemaId, relation, nearest, rfl, hnearest, hschema, hdistance, heligible, hobservations⟩
  refine ⟨schemaId, relation, nearest, ⟨rfl, if_pos haccept, ?_⟩,
    ⟨hnearest, hschema, fun other hother ↦ hnearest.le hpositive.le hother, hdistance⟩, ?_,
    hobservations, ?_⟩
  · have hoptional : (evaluatePolicy classified.inputs).wouldAccept = true := haccept
    simp [trustedVerdict, InferenceDecision.isAcceptedMatch, heligible, hoptional]
  · simpa [Relation.eligible] using heligible
  · intro otherCount otherFields other otherRelation hother
    rcases accepted_nearest hother with ⟨_, _, second, heq, hsecond, rfl, -⟩
    cases heq
    rw [← hschema]
    exact hsecond.schemaId_unique hpositive hnearest

end

/-! ### A sample -/

def sampleOrders : Profile := .fromNode (.object [("orderId", .number "1")])

def sampleReadings : Profile :=
  .fromNode (.object [("temperature", .array [.string "x"] false), ("b", .null)])

def sampleFamilies : List FamilyRef :=
  [⟨⟨"fam_b"⟩, .fromDigest (Vector.replicate 32 1), 1, sampleReadings.generalizedCanonicalJson⟩,
    ⟨⟨"fam_a"⟩, .fromDigest (Vector.replicate 32 0), 1, sampleOrders.generalizedCanonicalJson⟩]

def sampleReader : Bytes → Except String Value :=
  readerOf [profileText sampleOrders, profileText sampleReadings]

def sampleCandidates : List FamilyCandidate :=
  [⟨⟨"fam_a"⟩, .fromDigest (Vector.replicate 32 0), 1, 0, 0⟩,
    ⟨⟨"fam_b"⟩, .fromDigest (Vector.replicate 32 1), 1, 37 / 40, 0⟩]

theorem sample_representatives : familyRepresentatives
    (scoredRefs .ascii sampleReader sampleOrders sampleFamilies) = sampleCandidates := by
  have hscored : scoredRefs .ascii sampleReader sampleOrders sampleFamilies =
      sampleCandidates.reverse := by
    decide +kernel
  have hgroups : groupOn familyName sampleCandidates.reverse =
      sampleCandidates.map fun candidate ↦ (familyName candidate, [candidate]) := by
    decide +kernel
  have hleast : leastOfGroups familyName versionKey sampleCandidates.reverse =
      sampleCandidates := by
    unfold leastOfGroups sortOn
    rw [hgroups]
    simp [sampleCandidates]
  have hsorted : sampleCandidates.Pairwise fun left right ↦
      rankingKey left ≤ rankingKey right := by
    apply List.pairwise_pair.mpr
    exact Prod.Lex.toLex_le_toLex.mpr (.inl (by norm_num))
  unfold familyRepresentatives
  rw [hscored, hleast, sortOn_of_pairwise hsorted]

theorem accepted_unambiguous_nearest_sample :
    ∃ nearest, NearestBy policyMinMargin
        (scoredRefs .ascii sampleReader sampleOrders sampleFamilies) nearest ∧
      nearest.schemaId = .fromDigest (Vector.replicate 32 0) := by
  have hcandidates : (retrieveTopk .ascii sampleReader sampleOrders sampleFamilies 3).candidates =
      ranked sampleCandidates := by
    change ranked ((familyRepresentatives (scoredRefs _ _ _ _)).take 3) = _
    rw [sample_representatives]
    rfl
  have hmargin : (retrieveTopk .ascii sampleReader sampleOrders sampleFamilies 3).top1Top2Margin =
      37 / 40 := by
    change top1Top2Margin (ranked ((familyRepresentatives (scoredRefs _ _ _ _)).take 3)) = _
    rw [sample_representatives]
    decide +kernel
  have haccept : (maybeClassify (retrieveTopk .ascii sampleReader sampleOrders sampleFamilies 3) 20
      [["orderId"]] (.ok (.matchSchema (.fromDigest (Vector.replicate 32 0)) .exact))
        ).policyOutcome.wouldAccept := by
    apply wouldAccept_iff.mpr
    simp only [gateInputs, hcandidates, hmargin]
    decide +kernel
  rcases accepted_unambiguous_nearest .ascii sampleReader sampleOrders sampleFamilies 3 20
    [["orderId"]] _ haccept with ⟨_, _, nearest, ⟨heq, -⟩, ⟨hnearest, hschema, -⟩, -⟩
  cases heq
  exact ⟨nearest, hnearest, hschema⟩

/-- The trusted path applies only what the policy accepts. -/
theorem wouldAccept_of_apply {decision : InferenceDecision} {inputs : PolicyGateInputs}
    {mode : TrustMode} {schemaId : SchemaId} {relation : Relation}
    (happly : trustedVerdict decision inputs mode = .apply schemaId relation) :
    decision = .matchSchema schemaId relation ∧ (evaluatePolicy inputs).wouldAccept = true := by
  cases decision with
  | matchSchema selected selectedRelation =>
      unfold trustedVerdict at happly
      dsimp only at happly
      split_ifs at happly with heligible haccept
      cases mode with
      | autoApply =>
          cases happly
          exact ⟨rfl, by simpa using haccept⟩
      | proposeOnly => cases happly
  | _ => cases happly

end Deblob.Retrieval
