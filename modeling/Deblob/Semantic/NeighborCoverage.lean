import Deblob.Semantic.Neighbors
import Mathlib.Data.Countable.Basic
import Mathlib.Logic.Equiv.List
import Mathlib.Tactic.DeriveCountable

/-!
# What the neighbor search finds

In a consistent log the postings of a feature are the schemas whose active signature has it. So the
search finds the neighbors that share a looked-up feature, whatever the statistics of the corpus. A
neighbor is missed only if all it shares are features present in half of the corpus or more.
-/

namespace Deblob.Semantic

open Core Lib Redis Signature

/-- The JSON form of semantic metadata; what was written is read back. -/
structure MetadataJson where
  toJson : SemanticMetadata → String
  fromJson : String → Option SemanticMetadata
  fromJson_toJson : ∀ metadata, fromJson (toJson metadata) = some metadata

/-- The log is indexed under the hex keys of the features. -/
def MetadataJson.codec (json : MetadataJson) : MetadataCodec SemanticMetadata where
  toJson := json.toJson
  fromJson := json.fromJson
  fromJson_toJson := json.fromJson_toJson
  featureKeys metadata := (semanticSignature metadata).featureKeysHex

@[simp]
theorem MetadataJson.codec_featureKeys (json : MetadataJson) (metadata : SemanticMetadata) :
    json.codec.featureKeys metadata = (semanticSignature metadata).featureKeysHex := rfl

/-- The multiplier of a feature under the statistics of a corpus. -/
def multiplier (table : IdfTable) (key : Bytes) : ℕ :=
  idfMultiplier table.n (table.df (hexEncode key))

/-- The features whose postings are looked up. -/
def postedKeys (table : IdfTable) (signature : SemanticSignature) : List Bytes :=
  let kept := signature.featureKeys.filter fun key ↦ 0 < multiplier table key
  if kept.isEmpty then signature.featureKeys else kept

/-- Two metadata match if the strength of the match is not insufficient. -/
def Matches (table : IdfTable) (subject other : SemanticMetadata) : Prop :=
  strengthWeighted (semanticSignature subject) (semanticSignature other) (multiplier table) ≠
    .insufficient

instance (table : IdfTable) (subject other : SemanticMetadata) :
    Decidable (Matches table subject other) :=
  inferInstanceAs (Decidable (_ ≠ _))

/-- Every active schema but the query scored, and those that match kept. -/
def allNeighbors (json : MetadataJson) (store : SemStore) (table : IdfTable)
    (querySchId : SchemaId) (subject : SemanticMetadata) : Finset SchemaId :=
  store.activeSchemas.filter fun schId ↦ schId ≠ querySchId ∧
    (activeMetadata json.codec store schId).any fun other ↦ Matches table subject other

/-- The schemas a looked-up feature leads to. -/
def posted (store : SemStore) (table : IdfTable) (subject : SemanticMetadata) : Finset SchemaId :=
  postedUnder store ((postedKeys table (semanticSignature subject)).map hexEncode)

/-! ## Reading the statistics -/

/-- The multiplier of a feature whose frequency was read is the one of the table. -/
theorem readMultiplier_of_mem {table : IdfTable} {keys : List Bytes} {hexes : List String}
    (hhexes : hexes = keys.map hexEncode) {key : Bytes} (hkey : key ∈ keys) :
    readMultiplier table.n (keys.zip (hexes.map table.df)) key = multiplier table key := by
  have hlookup := lookup_zip_map keys (fun key ↦ table.df (hexEncode key)) key
  rw [if_pos hkey] at hlookup
  unfold readMultiplier
  rw [hhexes, List.map_map]
  exact congrArg (fun df ↦ idfMultiplier table.n (df.getD 0)) hlookup

theorem unionHex_eq {table : IdfTable} {signature : SemanticSignature} {idfQuery : Bytes → ℕ}
    (hagree : ∀ key ∈ signature.featureKeys, idfQuery key = multiplier table key) :
    unionHex signature idfQuery = (postedKeys table signature).map hexEncode := by
  have hpruned : ((signature.featureKeys.zip signature.featureKeysHex).filter fun entry ↦
      0 < idfQuery entry.1).map Prod.snd =
        (signature.featureKeys.filter fun key ↦ 0 < multiplier table key).map hexEncode := by
    unfold SemanticSignature.featureKeysHex
    rw [← List.map_prod_left_eq_zip, List.filter_map, List.map_map]
    congr 1
    apply List.filter_congr
    intro key hkey
    simp only [Function.comp_apply, hagree key hkey]
  unfold unionHex postedKeys
  dsimp only
  rw [hpruned, List.isEmpty_map]
  split_ifs <;> rfl

/-- The map lists the features of all signatures, each with its hex key. -/
theorem mem_rawToHex (querySignature : SemanticSignature) (candidates : List Candidate) :
    (rawToHex querySignature candidates).map Prod.snd =
        ((rawToHex querySignature candidates).map Prod.fst).map hexEncode ∧
      ∀ signature ∈ querySignature :: candidates.map Candidate.signature,
        ∀ key ∈ signature.featureKeys, key ∈ (rawToHex querySignature candidates).map Prod.fst := by
  have hentries (entries map : List (Bytes × String))
      (hnew : ∀ entry ∈ entries, entry.2 = hexEncode entry.1)
      (hold : ∀ entry ∈ map, entry.2 = hexEncode entry.1) :
      (∀ entry ∈ entries.foldl (fun map entry ↦ insertWith entry.1 entry.2 id map) map,
        entry.2 = hexEncode entry.1) ∧
      ∀ key, key ∈ entries.map Prod.fst ∨ key ∈ map.map Prod.fst → key ∈
        (entries.foldl (fun map entry ↦ insertWith entry.1 entry.2 id map) map).map Prod.fst := by
    induction entries generalizing map with
    | nil => exact ⟨hold, by simp⟩
    | cons first entries ih =>
        rw [List.forall_mem_cons] at hnew
        have hmap : ∀ entry ∈ insertWith first.1 first.2 id map, entry.2 = hexEncode entry.1 := by
          intro entry hentry
          rcases mem_insertWith_id hentry with rfl | hentry
          · exact hnew.1
          · exact hold entry hentry
        rcases ih (insertWith first.1 first.2 id map) hnew.2 hmap with ⟨hvalues, hkeys⟩
        refine ⟨hvalues, fun key hkey ↦ hkeys key ?_⟩
        rw [mem_keys_insertWith]
        rw [List.map_cons, List.mem_cons] at hkey
        tauto
  have hposts : ∀ entry ∈ (querySignature :: candidates.map Candidate.signature).flatMap
      (fun signature ↦ signature.featureKeys.zip signature.featureKeysHex),
      entry.2 = hexEncode entry.1 := by
    intro entry hentry
    rcases List.mem_flatMap.mp hentry with ⟨signature, -, hmem⟩
    rw [SemanticSignature.featureKeysHex, ← List.map_prod_left_eq_zip] at hmem
    rcases List.mem_map.mp hmem with ⟨key, -, rfl⟩
    rfl
  rcases hentries _ [] hposts (by simp) with ⟨hvalues, hkeys⟩
  constructor
  · rw [List.map_map]
    exact List.map_congr_left hvalues
  · intro signature hsignature key hkey
    apply hkeys
    refine .inl (List.mem_map.mpr ⟨(key, hexEncode key), ?_, rfl⟩)
    refine List.mem_flatMap.mpr ⟨signature, hsignature, ?_⟩
    rw [SemanticSignature.featureKeysHex, ← List.map_prod_left_eq_zip]
    exact List.mem_map_of_mem hkey

/-- Two multipliers that agree on the features of both metadata score a candidate alike. -/
theorem scoreCandidate_congr {subject other : SemanticMetadata} {candidate : Candidate}
    (hsignature : candidate.signature = semanticSignature other) {idf idf' : Bytes → ℕ}
    (hsubject : ∀ key ∈ (semanticSignature subject).featureKeys, idf key = idf' key)
    (hother : ∀ key ∈ (semanticSignature other).featureKeys, idf key = idf' key) :
    scoreCandidate (semanticSignature subject) idf candidate =
      scoreCandidate (semanticSignature subject) idf' candidate := by
  have hleft : ∀ cfid ∈ (semanticSignature subject).canonicalFieldIds,
      idf (encodeField cfid) = idf' (encodeField cfid) :=
    fun cfid hcfid ↦ hsubject _ (encodeField_mem hcfid)
  have hright : ∀ cfid ∈ (semanticSignature other).canonicalFieldIds,
      idf (encodeField cfid) = idf' (encodeField cfid) :=
    fun cfid hcfid ↦ hother _ (encodeField_mem hcfid)
  have hunion : ∀ key ∈ unionKeys (semanticSignature subject) (semanticSignature other),
      idf key = idf' key := by
    intro key hkey
    rcases Finset.mem_union.mp hkey with hkey | hkey
    · exact hsubject key (List.mem_toFinset.mp hkey)
    · exact hother key (List.mem_toFinset.mp hkey)
  unfold scoreCandidate
  rw [hsignature, strengthWeighted_congr hleft hright, similarityWeighted_congr hunion,
    sharedAnchorCountWeighted_congr hleft]

/-! ## The candidates -/

section

variable {json : MetadataJson} {store : SemStore} {order : UnionOrder} {table : IdfTable}
  {querySchId schId : SchemaId} {subject other : SemanticMetadata}

/-- Every candidate that is active and not the query is loaded with its active signature. -/
theorem loadCandidates_eq (hinv : SemConsistent json.codec store) (candidateIds : List SchemaId) :
    ∃ candidates, loadCandidates (store.reads json.codec order table) querySchId candidateIds =
        .ok candidates ∧
      (∀ candidate ∈ candidates, ∃ other,
        activeMetadata json.codec store candidate.schemaId = some other ∧
          candidate.signature = semanticSignature other) ∧
      candidates.map Candidate.schemaId = candidateIds.filter fun schId ↦
        schId ≠ querySchId ∧ (activeMetadata json.codec store schId).isSome := by
  induction candidateIds with
  | nil => exact ⟨[], rfl, by simp, rfl⟩
  | cons candidateId candidateIds ih =>
      rcases ih with ⟨candidates, hload, hsignatures, hids⟩
      unfold loadCandidates
      by_cases hquery : candidateId = querySchId
      · rw [if_pos hquery]
        refine ⟨candidates, hload, hsignatures, ?_⟩
        rw [List.filter_cons_of_neg (by simp [hquery]), hids]
      · rw [if_neg hquery]
        cases hactive : activeMetadata json.codec store candidateId with
        | none =>
            refine ⟨candidates, ?_, hsignatures, ?_⟩
            · change activeRevision json.codec store candidateId >>= _ = _
              rw [hinv.activeRevision_of_inactive hactive]
              exact hload
            · rw [List.filter_cons_of_neg (by simp [hactive]), hids]
        | some other =>
            rcases activeRevision_of_active hactive with ⟨hash, etag, hread⟩
            refine ⟨⟨candidateId, hash.revisionId, semanticSignature other⟩ :: candidates,
              ?_, ?_, ?_⟩
            · change activeRevision json.codec store candidateId >>= _ = _
              rw [hread]
              change loadCandidates _ _ _ >>= _ = _
              rw [hload]
              rfl
            · exact List.forall_mem_cons.mpr ⟨⟨other, hactive, rfl⟩, hsignatures⟩
            · rw [List.filter_cons_of_pos (by simp [hquery, hactive]), List.map_cons, hids]

theorem mem_allNeighbors (hinv : SemConsistent json.codec store) :
    schId ∈ allNeighbors json store table querySchId subject ↔
      schId ≠ querySchId ∧ ∃ other, activeMetadata json.codec store schId = some other ∧
        Matches table subject other := by
  unfold allNeighbors
  rw [Finset.mem_filter, hinv.mem_activeSchemas]
  cases activeMetadata json.codec store schId with
  | none => simp
  | some other => simp

/-- A schema is looked up if its active signature has a looked-up feature. -/
theorem mem_posted (hinv : SemConsistent json.codec store) :
    schId ∈ posted store table subject ↔
      ∃ other, activeMetadata json.codec store schId = some other ∧
        ∃ key ∈ postedKeys table (semanticSignature subject),
          key ∈ (semanticSignature other).featureKeys := by
  unfold posted
  rw [mem_postedUnder]
  constructor
  · rintro ⟨hex, hhex, hmem⟩
    rcases List.mem_map.mp hhex with ⟨key, hkey, rfl⟩
    rcases hinv.mem_sig.mp hmem with ⟨other, hactive, hfeature⟩
    exact ⟨other, hactive, key, hkey, hexEncode_mem_featureKeysHex.mp hfeature⟩
  · rintro ⟨other, hactive, key, hkey, hfeature⟩
    exact ⟨hexEncode key, List.mem_map_of_mem hkey,
      hinv.mem_sig.mpr ⟨other, hactive, hexEncode_mem_featureKeysHex.mpr hfeature⟩⟩

/-- The outcome of the search for an annotated schema, scored under the table itself. -/
theorem rankedNeighbors_eq (hinv : SemConsistent json.codec store)
    (hactive : activeMetadata json.codec store querySchId = some subject) :
    ∃ candidates, loadCandidates (store.reads json.codec order table) querySchId
        (order.list (posted store table subject)) = .ok candidates ∧
      rankedNeighbors (store.reads json.codec order table) querySchId = .ok (some (
        if ¬ HasAnchor (semanticSignature subject) then .noAnchor
        else if maxSignatureCandidates < (posted store table subject).card then .tooBroad
        else .found ((candidates.filterMap (scoreCandidate (semanticSignature subject)
          (multiplier table))).mergeSort fun a b ↦ (cmpNeighbors a b).isLE) table.n)) := by
  rcases @loadCandidates_eq json store order table querySchId hinv
    (order.list (posted store table subject)) with ⟨candidates, hload, hsignatures, -⟩
  refine ⟨candidates, hload, ?_⟩
  rcases activeRevision_of_active hactive with ⟨hash, etag, hread⟩
  have hunion : unionHex (semanticSignature subject) (readMultiplier table.n
      ((semanticSignature subject).featureKeys.zip
        ((semanticSignature subject).featureKeysHex.map table.df))) =
      (postedKeys table (semanticSignature subject)).map hexEncode :=
    unionHex_eq fun key hkey ↦ readMultiplier_of_mem rfl hkey
  rcases mem_rawToHex (semanticSignature subject) candidates with ⟨hhexes, hkeys⟩
  have hscore : candidates.filterMap (scoreCandidate (semanticSignature subject)
      (readMultiplier table.n (((rawToHex (semanticSignature subject) candidates).map Prod.fst).zip
        (((rawToHex (semanticSignature subject) candidates).map Prod.snd).map table.df)))) =
      candidates.filterMap (scoreCandidate (semanticSignature subject) (multiplier table)) := by
    apply List.filterMap_congr
    intro candidate hcandidate
    rcases hsignatures candidate hcandidate with ⟨other, -, hsignature⟩
    apply scoreCandidate_congr hsignature
    · intro key hkey
      exact readMultiplier_of_mem hhexes (hkeys _ List.mem_cons_self key hkey)
    · intro key hkey
      have hmem : candidate.signature ∈
          semanticSignature subject :: candidates.map Candidate.signature :=
        List.mem_cons_of_mem _ (List.mem_map_of_mem hcandidate)
      exact readMultiplier_of_mem hhexes (hkeys _ hmem key (hsignature ▸ hkey))
  unfold rankedNeighbors
  change activeRevision json.codec store querySchId >>= _ = _
  rw [hread]
  change (if ¬ HasAnchor (semanticSignature subject) then _ else _) = _
  by_cases hanchor : HasAnchor (semanticSignature subject)
  · rw [if_neg (not_not_intro hanchor), if_neg (not_not_intro hanchor)]
    dsimp only [SemStore.reads, IdfTable.stats, Bind.bind, Except.bind]
    rw [hunion, signatureCandidates_eq]
    by_cases hbroad : maxSignatureCandidates < (posted store table subject).card
    · rw [if_pos hbroad]
      dsimp only [posted] at hbroad
      rw [if_pos hbroad]
      rfl
    · rw [if_neg hbroad]
      dsimp only [posted, SemStore.reads, IdfTable.stats] at hbroad hload
      rw [if_neg hbroad]
      dsimp only
      rw [hload]
      change Except.ok (some (NeighborOutcome.found _ _)) = _
      rw [← hscore]
  · rw [if_pos hanchor, if_pos hanchor]
    rfl

/-- The found neighbors are the matching schemas among those looked up. -/
theorem mem_found (hinv : SemConsistent json.codec store) {candidates : List Candidate}
    (hload : loadCandidates (store.reads json.codec order table) querySchId
      (order.list (posted store table subject)) = .ok candidates) :
    schId ∈ ((candidates.filterMap (scoreCandidate (semanticSignature subject)
        (multiplier table))).mergeSort fun a b ↦ (cmpNeighbors a b).isLE).map Neighbor.schemaId ↔
      schId ∈ allNeighbors json store table querySchId subject ∧
        schId ∈ posted store table subject := by
  rcases @loadCandidates_eq json store order table querySchId hinv
    (order.list (posted store table subject)) with ⟨loaded, hloaded, hsignatures, hids⟩
  rw [hload] at hloaded
  cases hloaded
  have hcandidate : schId ∈ candidates.map Candidate.schemaId ↔
      schId ∈ posted store table subject ∧ schId ≠ querySchId ∧
        (activeMetadata json.codec store schId).isSome := by
    rw [hids, List.mem_filter, order.mem, decide_eq_true_eq]
  rw [mem_allNeighbors hinv, List.mem_map]
  constructor
  · rintro ⟨neighbor, hneighbor, rfl⟩
    rcases List.mem_filterMap.mp (List.mem_mergeSort.mp hneighbor) with
      ⟨candidate, hmem, hscored⟩
    unfold scoreCandidate at hscored
    dsimp only at hscored
    split_ifs at hscored with hstrength
    cases hscored
    rcases hsignatures candidate hmem with ⟨other, hactive, hsignature⟩
    rcases hcandidate.mp (List.mem_map_of_mem hmem) with ⟨hposted, hquery, -⟩
    exact ⟨⟨hquery, other, hactive, by rwa [Matches, ← hsignature]⟩, hposted⟩
  · rintro ⟨⟨hquery, other, hactive, hmatches⟩, hposted⟩
    rcases List.mem_map.mp (hcandidate.mpr ⟨hposted, hquery, by simp [hactive]⟩) with
      ⟨candidate, hmem, rfl⟩
    rcases hsignatures candidate hmem with ⟨found, hfound, hsignature⟩
    rw [hactive, Option.some.injEq] at hfound
    subst hfound
    have hstrength : strengthWeighted (semanticSignature subject) candidate.signature
        (multiplier table) ≠ .insufficient := hsignature ▸ hmatches
    have hscored : ∃ neighbor, scoreCandidate (semanticSignature subject) (multiplier table)
        candidate = some neighbor ∧ neighbor.schemaId = candidate.schemaId := by
      unfold scoreCandidate
      dsimp only
      rw [if_neg hstrength]
      exact ⟨_, rfl, rfl⟩
    rcases hscored with ⟨neighbor, hneighbor, hid⟩
    exact ⟨neighbor, List.mem_mergeSort.mpr (List.mem_filterMap.mpr ⟨candidate, hmem, hneighbor⟩),
      hid⟩

/-- A feature that is not looked up has been dropped for being too common. -/
theorem multiplier_eq_zero_of_not_posted {key : Bytes}
    (hkey : key ∈ (semanticSignature subject).featureKeys)
    (hposted : key ∉ postedKeys table (semanticSignature subject)) : multiplier table key = 0 := by
  unfold postedKeys at hposted
  dsimp only at hposted
  split_ifs at hposted
  · exact absurd hkey hposted
  · by_contra hpositive
    exact hposted (List.mem_filter.mpr ⟨hkey, by simpa using Nat.pos_of_ne_zero hpositive⟩)

/-- With no feature dropped, or every one, all features are looked up. -/
theorem postedKeys_of_uniform {signature : SemanticSignature}
    (huniform : (∀ key ∈ signature.featureKeys, 0 < multiplier table key) ∨
      ∀ key ∈ signature.featureKeys, multiplier table key = 0) :
    postedKeys table signature = signature.featureKeys := by
  unfold postedKeys
  dsimp only
  rcases huniform with hpositive | hzero
  · rw [List.filter_eq_self.mpr fun key hkey ↦ decide_eq_true (hpositive key hkey), ite_self]
  · have hnone : signature.featureKeys.filter (fun key ↦ 0 < multiplier table key) = [] :=
      List.filter_eq_nil_iff.mpr fun key hkey ↦ by simp [hzero key hkey]
    rw [hnone]
    rfl

/-- A matching schema that is missed shares dropped features only, none of them an anchor. -/
theorem missed_shares (hmatches : Matches table subject other)
    (hmissed : ∀ key ∈ postedKeys table (semanticSignature subject),
      key ∉ (semanticSignature other).featureKeys) :
    (∃ key ∈ (semanticSignature subject).featureKeys,
      key ∈ (semanticSignature other).featureKeys) ∧
    (∀ key ∈ (semanticSignature subject).featureKeys,
      key ∈ (semanticSignature other).featureKeys → multiplier table key = 0) ∧
    sharedAnchorFieldCount (semanticSignature subject) (semanticSignature other)
      (multiplier table) = 0 := by
  have hzero : ∀ key ∈ (semanticSignature subject).featureKeys,
      key ∈ (semanticSignature other).featureKeys → multiplier table key = 0 :=
    fun key hsubject hother ↦ multiplier_eq_zero_of_not_posted hsubject fun hposted ↦
      hmissed key hposted hother
  refine ⟨shares_of_strength hmatches, hzero, ?_⟩
  apply Finset.card_eq_zero.mpr
  apply Finset.filter_eq_empty_iff.mpr
  intro cfid hcfid hanchor
  rcases Finset.mem_inter.mp hcfid with ⟨hsubject, hother⟩
  have hdropped := hzero _ (encodeField_mem hsubject) (encodeField_mem hother)
  have hcommon := hanchor.2
  rw [hdropped] at hcommon
  exact absurd hcommon (by decide)

end

/-- What the search finds before it is cut, in every reachable log and under any statistics. -/
theorem neighbors_found (json : MetadataJson) : ∀ store,
    (semMachine json.codec).Reachable mintsFresh store →
    ∀ (order : UnionOrder) (table : IdfTable) (querySchId : SchemaId) (subject : SemanticMetadata),
    activeMetadata json.codec store querySchId = some subject →
      -- a query without an anchor has no neighbors and is told so
      (¬ HasAnchor (semanticSignature subject) →
        rankedNeighbors (store.reads json.codec order table) querySchId = .ok (some .noAnchor) ∧
          allNeighbors json store table querySchId subject = ∅) ∧
      -- a union over the bound gives no list at all
      (HasAnchor (semanticSignature subject) →
        maxSignatureCandidates < (posted store table subject).card →
          rankedNeighbors (store.reads json.codec order table) querySchId = .ok (some .tooBroad)) ∧
      -- otherwise the matches under a looked-up feature are found, all matches if none is dropped
      (HasAnchor (semanticSignature subject) →
        (posted store table subject).card ≤ maxSignatureCandidates →
          ∃ found, rankedNeighbors (store.reads json.codec order table) querySchId =
              .ok (some (.found found table.n)) ∧
            (∀ schId, schId ∈ found.map Neighbor.schemaId ↔
              schId ∈ allNeighbors json store table querySchId subject ∧
                ∃ other, activeMetadata json.codec store schId = some other ∧
                  ∃ key ∈ postedKeys table (semanticSignature subject),
                    key ∈ (semanticSignature other).featureKeys) ∧
            (((∀ key ∈ (semanticSignature subject).featureKeys, 0 < multiplier table key) ∨
                ∀ key ∈ (semanticSignature subject).featureKeys, multiplier table key = 0) →
              ∀ schId, schId ∈ found.map Neighbor.schemaId ↔
                schId ∈ allNeighbors json store table querySchId subject)) ∧
      -- a match that is not looked up shares some features, all dropped and none an anchor
      (∀ other, Matches table subject other →
        (∀ key ∈ postedKeys table (semanticSignature subject),
          key ∉ (semanticSignature other).featureKeys) →
        (∃ key ∈ (semanticSignature subject).featureKeys,
          key ∈ (semanticSignature other).featureKeys) ∧
        (∀ key ∈ (semanticSignature subject).featureKeys,
          key ∈ (semanticSignature other).featureKeys → multiplier table key = 0) ∧
        sharedAnchorFieldCount (semanticSignature subject) (semanticSignature other)
          (multiplier table) = 0) := by
  intro store reached order table querySchId subject hactive
  have hinv := semConsistent_reachable reached
  rcases @rankedNeighbors_eq json store order table querySchId subject hinv hactive with
    ⟨candidates, hload, hranked⟩
  refine ⟨fun hanchor ↦ ⟨?_, ?_⟩, fun hanchor hbroad ↦ ?_, fun hanchor hbounded ↦ ?_,
    fun other ↦ missed_shares⟩
  · rw [hranked, if_pos hanchor]
  · apply Finset.eq_empty_of_forall_notMem
    intro schId hmem
    rcases (mem_allNeighbors hinv).mp hmem with ⟨-, other, -, hmatches⟩
    exact hmatches (strengthWeighted_of_not_hasAnchor hanchor)
  · rw [hranked, if_neg (not_not_intro hanchor), if_pos hbroad]
  · rw [if_neg (not_not_intro hanchor), if_neg (not_lt.mpr hbounded)] at hranked
    refine ⟨_, hranked, fun schId ↦ ?_, fun huniform schId ↦ ?_⟩
    · rw [mem_found hinv hload, mem_posted hinv]
    · rw [mem_found hinv hload, and_iff_left_iff_imp]
      intro hmem
      rcases (mem_allNeighbors hinv).mp hmem with ⟨-, other, hother, hmatches⟩
      rcases shares_of_strength hmatches with ⟨key, hsubject, hshared⟩
      refine (mem_posted hinv).mpr ⟨other, hother, key, ?_, hshared⟩
      rwa [postedKeys_of_uniform huniform]

/-! ## A population that shares its event type -/

/-- The first annotation of a schema. -/
def firstAppend (schId : SchemaId) (metadata : SemanticMetadata) : AppendCall SemanticMetadata where
  schId := schId
  semId := .fromDigest (.replicate 32 0)
  canonicalBytesHex := "00"
  metadata := metadata
  actor := "operator"
  reasonCode := "correction"
  reason := "annotate"
  recordedAt := 0
  effectiveFrom := 0
  revisionId := ⟨"first"⟩
  expectedEtag := none

/-- The log after each schema of a population was annotated once. -/
def populate (json : MetadataJson) (population : List (SchemaId × SemanticMetadata)) : SemStore :=
  population.foldl (fun store entry ↦
    (appendScript json.codec store (firstAppend entry.1 entry.2)).2) .empty

/-- Any population is reached, and every schema asserts what it was annotated with. -/
theorem populate_spec (json : MetadataJson) {population : List (SchemaId × SemanticMetadata)}
    (hnodup : (population.map Prod.fst).Nodup) :
    (semMachine json.codec).Reachable mintsFresh (populate json population) ∧
      ∀ schId other, activeMetadata json.codec (populate json population) schId = some other ↔
        (schId, other) ∈ population := by
  induction population using List.reverseRecOn with
  | nil => exact ⟨.refl, by simp [populate, activeMetadata, SemStore.empty]⟩
  | append_singleton population entry ih =>
      rw [List.map_append, List.nodup_append] at hnodup
      rcases ih hnodup.1 with ⟨hreached, hmetadata⟩
      have hinactive : activeMetadata json.codec (populate json population) entry.1 = none := by
        cases hactive : activeMetadata json.codec (populate json population) entry.1 with
        | none => rfl
        | some other =>
            have hmem := List.mem_map_of_mem (f := Prod.fst) ((hmetadata _ _).mp hactive)
            exact absurd rfl (hnodup.2.2 _ hmem entry.1 (by simp))
      have hstep : populate json (population ++ [entry]) =
          (appendScript json.codec (populate json population)
            (firstAppend entry.1 entry.2)).2 := by
        unfold populate
        rw [List.foldl_append]
        rfl
      have hreason : (firstAppend entry.1 entry.2).reason ≠ "" := show "annotate" ≠ "" by decide
      have hfirst := (semConsistent_reachable hreached).appendScript_first hinactive hreason rfl
      rw [hstep]
      refine ⟨hreached.step hfirst.1 rfl, fun schId other ↦ ?_⟩
      rw [hfirst.2, activeMetadata_appendWrites, List.mem_append, List.mem_singleton, Prod.ext_iff]
      split_ifs with hschema
      · have hschId : schId = entry.1 := hschema
        have hold : (entry.1, other) ∉ population := by
          intro hmem
          rw [← hmetadata, hinactive] at hmem
          cases hmem
        rw [hschId, Option.some.injEq, or_iff_right hold, and_iff_right rfl]
        exact eq_comm
      · have hschId : schId ≠ entry.1 := hschema
        rw [hmetadata]
        simp [hschId]

def sampleSchema (number : ℕ) : SchemaId :=
  .fromDigest ((Vector.replicate 31 0).push (UInt8.ofNat number))

/-- An event type and a field id that no other schema asserts. -/
def sampleSubject : SemanticMetadata where
  eventType := some "order.created"
  fields := [⟨[.key "id"], { FieldSemantics.none with canonicalFieldId := some "cfid_order" }⟩]

def sampleOther : SemanticMetadata := ⟨some "order.created", []⟩

theorem sampleSchema_inj {left right : ℕ} (hleft : left < 32) (hright : right < 32)
    (heq : sampleSchema left = sampleSchema right) : left = right := by
  have hbyte := Vector.push_inj_right.mp (DigestId.fromDigest_injective heq)
  have hnat : left % 256 = right % 256 := by simpa [← UInt8.toNat_inj] using hbyte
  omega

theorem sampleSchema_ne : sampleSchema 0 ≠ sampleSchema 1 := fun heq ↦
  absurd (sampleSchema_inj (by decide) (by decide) heq) (by decide)

def samplePair : List (SchemaId × SemanticMetadata) :=
  [(sampleSchema 0, sampleSubject), (sampleSchema 1, sampleOther)]

theorem samplePair_nodup : (samplePair.map Prod.fst).Nodup := by
  simp [samplePair, sampleSchema_ne]

/-- 32 schemas with the same event type; the first one also asserts a field id. -/
def samplePopulation : List (SchemaId × SemanticMetadata) :=
  (sampleSchema 0, sampleSubject) ::
    (List.range 31).map fun number ↦ (sampleSchema (number + 1), sampleOther)

theorem samplePopulation_nodup : (samplePopulation.map Prod.fst).Nodup := by
  have hschemas : samplePopulation.map Prod.fst = (List.range 32).map sampleSchema := rfl
  rw [hschemas]
  apply List.Nodup.map_on _ List.nodup_range
  intro left hleft right hright heq
  exact sampleSchema_inj (List.mem_range.mp hleft) (List.mem_range.mp hright) heq

section

variable (json : MetadataJson)

def sampleStore : SemStore := populate json samplePopulation

theorem sampleStore_reachable : (semMachine json.codec).Reachable mintsFresh (sampleStore json) :=
  (populate_spec json samplePopulation_nodup).1

theorem sampleStore_active {schId : SchemaId} {other : SemanticMetadata} :
    activeMetadata json.codec (sampleStore json) schId = some other ↔
      (schId, other) ∈ samplePopulation :=
  (populate_spec json samplePopulation_nodup).2 schId other

theorem sampleStore_consistent : SemConsistent json.codec (sampleStore json) :=
  semConsistent_reachable (sampleStore_reachable json)

theorem sampleStore_sig {schId : SchemaId} {key : Bytes} :
    schId ∈ (sampleStore json).sig (hexEncode key) ↔
      ∃ other, (schId, other) ∈ samplePopulation ∧ key ∈ occurrences other := by
  rw [(sampleStore_consistent json).mem_sig]
  simp only [sampleStore_active, MetadataJson.codec_featureKeys, hexEncode_mem_featureKeysHex,
    mem_featureKeys]

theorem mem_samplePopulation {schId : SchemaId} {other : SemanticMetadata} :
    (schId, other) ∈ samplePopulation ↔ (schId = sampleSchema 0 ∧ other = sampleSubject) ∨
      (other = sampleOther ∧ ∃ number < 31, sampleSchema (number + 1) = schId) := by
  simp only [samplePopulation, List.mem_cons, List.mem_map, List.mem_range, Prod.mk.injEq]
  apply or_congr_right
  constructor
  · rintro ⟨number, hnumber, hschema, rfl⟩
    exact ⟨rfl, number, hnumber, hschema⟩
  · rintro ⟨rfl, number, hnumber, hschema⟩
    exact ⟨number, hnumber, hschema, rfl⟩

theorem mem_sampleSchemas {schId : SchemaId} :
    schId ∈ (samplePopulation.map Prod.fst).toFinset ↔
      ∃ other, (schId, other) ∈ samplePopulation := by
  simp

theorem card_sampleSchemas : (samplePopulation.map Prod.fst).toFinset.card = 32 := by
  rw [List.toFinset_card_of_nodup samplePopulation_nodup]
  simp [samplePopulation]

theorem sampleTable_n : (sampleStore json).idfTable.n = 32 := by
  have hschemas : (sampleStore json).activeSchemas = (samplePopulation.map Prod.fst).toFinset := by
    ext schId
    rw [(sampleStore_consistent json).mem_activeSchemas, Option.isSome_iff_exists,
      mem_sampleSchemas]
    exact exists_congr fun other ↦ sampleStore_active json
  rw [idfTable_n, hschemas, card_sampleSchemas]

/-- Every schema asserts the event type. -/
theorem sampleTable_event :
    multiplier (sampleStore json).idfTable (encodeEvent "order.created") = 0 := by
  have hsig : (sampleStore json).sig (hexEncode (encodeEvent "order.created")) =
      (samplePopulation.map Prod.fst).toFinset := by
    ext schId
    rw [sampleStore_sig, mem_sampleSchemas]
    apply exists_congr
    intro other
    apply and_iff_left_of_imp
    intro hmem
    rcases mem_samplePopulation.mp hmem with ⟨-, rfl⟩ | ⟨rfl, -⟩
    · simp [occurrences, sampleSubject]
    · simp [occurrences, sampleOther]
  unfold multiplier
  rw [sampleTable_n, idfTable_df, hsig, card_sampleSchemas]
  decide

/-- Only the first schema asserts the field id. -/
theorem sampleStore_sig_field {schId : SchemaId} :
    schId ∈ (sampleStore json).sig (hexEncode (encodeField "cfid_order")) ↔
      schId = sampleSchema 0 := by
  have hsubject : encodeField "cfid_order" ∈ occurrences sampleSubject := by
    simp [occurrences, sampleSubject, fieldFeatures]
  have hother : encodeField "cfid_order" ∉ occurrences sampleOther := by
    simp [occurrences, sampleOther, encodeField, encodeEvent, FeatureTag.toByte]
  rw [sampleStore_sig]
  constructor
  · rintro ⟨other, hmem, hfeature⟩
    rcases mem_samplePopulation.mp hmem with ⟨hschema, -⟩ | ⟨rfl, -⟩
    · exact hschema
    · exact absurd hfeature hother
  · rintro rfl
    exact ⟨sampleSubject, mem_samplePopulation.mpr (.inl ⟨rfl, rfl⟩), hsubject⟩

theorem sampleTable_field :
    0 < multiplier (sampleStore json).idfTable (encodeField "cfid_order") := by
  have hsig : (sampleStore json).sig (hexEncode (encodeField "cfid_order")) = {sampleSchema 0} := by
    ext schId
    rw [sampleStore_sig_field, Finset.mem_singleton]
  unfold multiplier
  rw [sampleTable_n, idfTable_df, hsig, Finset.card_singleton]
  decide +kernel

/-- Of the two features of the subject only the rare one is looked up. -/
theorem sample_postedKeys :
    postedKeys (sampleStore json).idfTable (semanticSignature sampleSubject) =
      [encodeField "cfid_order"] := by
  have hkeys : (semanticSignature sampleSubject).featureKeys =
      [encodeEvent "order.created", encodeField "cfid_order"] := by decide
  unfold postedKeys
  rw [hkeys]
  simp [sampleTable_event, sampleTable_field]

theorem sample_hasAnchor : HasAnchor (semanticSignature sampleSubject) := .inl rfl

theorem sample_matches (table : IdfTable) : Matches table sampleSubject sampleOther := by
  have hevent : SameEvent (semanticSignature sampleSubject) (semanticSignature sampleOther) := by
    decide
  have hdiffering : ¬ DifferingEventTypes (semanticSignature sampleSubject)
      (semanticSignature sampleOther) := by decide
  have hother : HasAnchor (semanticSignature sampleOther) := .inl rfl
  unfold Matches strengthWeighted computedStrength
  simp [sample_hasAnchor, hother, hdiffering, hevent]

theorem sample_posted :
    posted (sampleStore json) (sampleStore json).idfTable sampleSubject = {sampleSchema 0} := by
  ext schId
  rw [mem_posted (sampleStore_consistent json), sample_postedKeys, Finset.mem_singleton,
    ← sampleStore_sig_field json, (sampleStore_consistent json).mem_sig]
  simp

end

/-- The JSON texts of the metadata of the population. -/
def sampleSubjectJson : String :=
  "\x7b" ++ ("\"event_type\":\"order.created\",\"fields\":[" ++
    "\x7b\"path\":[\x7b\"key\":\"id\"\x7d]," ++
    "\"semantics\":\x7b\"canonical_field_id\":\"cfid_order\",\"identifier_namespace\":null," ++
    "\"unit\":null,\"numeric_scale\":null,\"temporal\":null,\"enum_semantics\":null\x7d\x7d]\x7d")

def sampleOtherJson : String :=
  "\x7b" ++ "\"event_type\":\"order.created\",\"fields\":[]\x7d"

instance instCountableChar : Countable Char :=
  Function.Injective.countable fun _ _ ↦ Char.toNat_inj.mp

instance instCountableString : Countable String :=
  Function.Injective.countable fun _ _ ↦ String.toList_inj.mp

instance instCountableInt64 : Countable Int64 :=
  Function.Injective.countable fun _ _ ↦ Int64.toInt_inj.mp

deriving instance Countable for EnumValue, MeaningCode, EnumMapping, PathSegment, TemporalKind,
  TemporalResolution, EpochBase, Temporal, Umbrella.UnitSystem, Umbrella.Unit, FieldSemantics,
  FieldEntry, SemanticMetadata

/-- There is a JSON form with these texts; the other metadata are only told apart. -/
theorem exists_sampleJson : ∃ json : MetadataJson,
    json.toJson sampleSubject = sampleSubjectJson ∧ json.toJson sampleOther = sampleOtherJson := by
  rcases exists_injective_nat SemanticMetadata with ⟨number, hnumber⟩
  have hsamples : sampleSubjectJson ≠ sampleOtherJson := by
    intro heq
    have hsize : sampleSubjectJson.utf8ByteSize ≠ sampleOtherJson.utf8ByteSize := by decide +kernel
    exact hsize (congrArg String.utf8ByteSize heq)
  have hplain (count : ℕ) (rest : String) :
      String.ofList (List.replicate count 'a') ≠ "\x7b" ++ rest := by
    intro heq
    have hmem : '\x7b' ∈ List.replicate count 'a' := by
      rw [← @String.toList_ofList (List.replicate count 'a'), heq, String.toList_append]
      exact List.mem_append_left _ (by decide)
    exact absurd (List.eq_of_mem_replicate hmem) (by decide)
  let toJson (metadata : SemanticMetadata) : String :=
    if metadata = sampleSubject then sampleSubjectJson
    else if metadata = sampleOther then sampleOtherJson
    else String.ofList (List.replicate (number metadata) 'a')
  have hinjective : Function.Injective toJson := by
    intro left right heq
    dsimp only [toJson] at heq
    split_ifs at heq with hleft hright hright' hleft' hright hright' hright hright'
    · rw [hleft, hright]
    · exact absurd heq hsamples
    · exact absurd heq.symm (hplain _ _)
    · exact absurd heq.symm hsamples
    · rw [hleft', hright']
    · exact absurd heq.symm (hplain _ _)
    · exact absurd heq (hplain _ _)
    · exact absurd heq (hplain _ _)
    · have hcount := congrArg List.length (String.ofList_injective heq)
      exact hnumber (by simpa using hcount)
  refine ⟨⟨toJson, Function.partialInv toJson, fun metadata ↦ ?_⟩, ?_, ?_⟩
  · exact (hinjective.isPartialInv metadata _).mpr rfl
  · dsimp only [toJson]
    rw [if_pos rfl]
  · dsimp only [toJson]
    rw [if_neg (by decide), if_pos rfl]

/-- With the log's own statistics the search misses a schema of the same event type. -/
theorem neighbors_miss_common_event : ∃ json : MetadataJson,
    json.toJson sampleSubject = sampleSubjectJson ∧ json.toJson sampleOther = sampleOtherJson ∧
      (semMachine json.codec).Reachable mintsFresh (sampleStore json) ∧
      activeMetadata json.codec (sampleStore json) (sampleSchema 0) = some sampleSubject ∧
      (∀ order, rankedNeighbors ((sampleStore json).reads json.codec order
        (sampleStore json).idfTable) (sampleSchema 0) = .ok (some (.found [] 32))) ∧
      sampleSchema 1 ∈ allNeighbors json (sampleStore json) (sampleStore json).idfTable
        (sampleSchema 0) sampleSubject := by
  rcases exists_sampleJson with ⟨json, hsubject, hother⟩
  have hinv := sampleStore_consistent json
  have hquery : activeMetadata json.codec (sampleStore json) (sampleSchema 0) =
      some sampleSubject :=
    (sampleStore_active json).mpr (mem_samplePopulation.mpr (.inl ⟨rfl, rfl⟩))
  refine ⟨json, hsubject, hother, sampleStore_reachable json, hquery, fun order ↦ ?_, ?_⟩
  · rcases @rankedNeighbors_eq json (sampleStore json) order (sampleStore json).idfTable
      (sampleSchema 0) sampleSubject hinv hquery with ⟨candidates, hload, hranked⟩
    rcases @loadCandidates_eq json (sampleStore json) order (sampleStore json).idfTable
      (sampleSchema 0) hinv (order.list (posted (sampleStore json) (sampleStore json).idfTable
        sampleSubject)) with ⟨loaded, hloaded, -, hids⟩
    rw [hload] at hloaded
    cases hloaded
    have hnone : candidates = [] := by
      apply List.map_eq_nil_iff.mp
      rw [hids, List.filter_eq_nil_iff]
      intro schId hmem
      rw [order.mem, sample_posted, Finset.mem_singleton] at hmem
      simp [hmem]
    rw [hranked, if_neg (not_not_intro sample_hasAnchor), sample_posted, Finset.card_singleton,
      if_neg (by decide), sampleTable_n, hnone, List.filterMap_nil, List.mergeSort_nil]
  · rw [mem_allNeighbors hinv]
    refine ⟨sampleSchema_ne.symm, sampleOther, (sampleStore_active json).mpr ?_, sample_matches _⟩
    exact mem_samplePopulation.mpr (.inr ⟨rfl, 0, by decide, rfl⟩)

/-- In a log of two schemas nothing is dropped and the other one is found. -/
theorem neighbors_found_pair : ∃ json : MetadataJson,
    json.toJson sampleSubject = sampleSubjectJson ∧ json.toJson sampleOther = sampleOtherJson ∧
      ∀ order, ∃ found, rankedNeighbors ((populate json samplePair).reads json.codec order
          (populate json samplePair).idfTable) (sampleSchema 0) = .ok (some (.found found 2)) ∧
        sampleSchema 1 ∈ found.map Neighbor.schemaId := by
  rcases exists_sampleJson with ⟨json, hsubject, hother⟩
  refine ⟨json, hsubject, hother, fun order ↦ ?_⟩
  rcases populate_spec json samplePair_nodup with ⟨hreached, hactive⟩
  have hinv := semConsistent_reachable hreached
  have hschemas : (populate json samplePair).activeSchemas = {sampleSchema 0, sampleSchema 1} := by
    ext schId
    rw [hinv.mem_activeSchemas, Option.isSome_iff_exists]
    simp only [hactive]
    simp [samplePair, exists_or]
  have hn : (populate json samplePair).idfTable.n = 2 := by
    rw [idfTable_n, hschemas]
    exact Finset.card_pair sampleSchema_ne
  have hposted : (posted (populate json samplePair) (populate json samplePair).idfTable
      sampleSubject).card ≤ maxSignatureCandidates := by
    have hsubset : posted (populate json samplePair) (populate json samplePair).idfTable
        sampleSubject ⊆ (populate json samplePair).activeSchemas := by
      intro schId hmem
      rcases (mem_posted hinv).mp hmem with ⟨other, hother, -⟩
      rw [hinv.mem_activeSchemas, hother, Option.isSome_some]
    apply (Finset.card_le_card hsubset).trans
    rw [← idfTable_n, hn]
    decide
  have hquery := (hactive (sampleSchema 0) sampleSubject).mpr (by simp [samplePair])
  rcases (neighbors_found json _ hreached order (populate json samplePair).idfTable _ _
    hquery).2.2.1 sample_hasAnchor hposted with ⟨found, hranked, -, hall⟩
  rw [hn] at hranked
  refine ⟨found, hranked, (hall (.inl fun key _ ↦ ?_) _).mpr ((mem_allNeighbors hinv).mpr ?_)⟩
  · unfold multiplier
    rw [hn, idfMultiplier, if_pos (by decide)]
    decide
  · exact ⟨sampleSchema_ne.symm, sampleOther,
      (hactive _ _).mpr (by simp [samplePair]), sample_matches _⟩

end Deblob.Semantic
