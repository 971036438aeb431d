import Deblob.Cold.Ingest
import Deblob.Retrieval.SelfRetrieval
import Deblob.Semantic.StoredLevels

/-!
# Candidates that are read back

Every document of a candidate is merged into what is read back of the candidate's hash. The parser
accepts documents up to the configured depth, which has no upper bound, and the JSON library writes
any nesting but does not read it. A candidate with a document whose positions are too deep is never
read again.
-/

namespace Deblob.Cold

open Core Lib Fingerprint Redis Retrieval Semantic
open Deblob.Monoid (Profile Step generalizer Summarizes nodesAt profileOf
  profileOf_concat profileOf_summarizes view_eq)
open Slm (jsonStringLiteral)
open Umbrella (Value)

/-- The limits that a configuration sets. -/
structure LimitsConfig where
  maxBytes : ℕ
  maxDepth : ℕ
  maxFieldsPerObject : ℕ

/-- The other limits are the default ones. -/
def LimitsConfig.toLimits (config : LimitsConfig) : Limits :=
  { (default : Limits) with
    maxBytes := config.maxBytes
    maxDepth := config.maxDepth
    maxFieldsPerObject := config.maxFieldsPerObject }

/-- A document that the parser accepts, clustered onto a candidate. -/
structure Delivery (limits : Limits) where
  payload : Bytes
  node : Node
  accepted : parseBounded payload limits = .ok node
  source : String
  nowMs : ℤ

/-- The hash of a candidate. -/
structure StoredHash where
  record : Bytes
  state : String

def upsertHash (record : CandidateRecord Profile) : StoredHash where
  record := utf8 (storedRecord record).write
  state := candidateStateStr record.state

variable {limits : Limits} (fromStr : Bytes → Except String Value) (id : CandidateId)

/-- `get_candidate`, with the profile as an ingest reads it. -/
def loadCandidate (hash : StoredHash) : Except StoredError (CandidateRecord Profile) := do
  let record ← candidateFromHash fromStr hash.record (some hash.state)
  let profile ← (profileFromValue record.profile).elim (.error .corruptProfile) .ok
  return { record with profile }

def mergeDelivery (existing : Option (CandidateRecord Profile)) (delivery : Delivery limits) :
    CandidateRecord Profile :=
  mergedRecord coldCfg ⟨id, .fromNode delivery.node, delivery.source, delivery.nowMs⟩ existing

/-- The candidate is read, merged and written. -/
def ingestStored (hash : Option StoredHash) (delivery : Delivery limits) :
    Except StoredError (Option StoredHash) := do
  let existing ← match hash with
    | none => .ok none
    | some hash => (loadCandidate fromStr hash).map some
  return some (upsertHash (mergeDelivery id existing delivery))

def ingestAll (deliveries : List (Delivery limits)) : Except StoredError (Option StoredHash) :=
  deliveries.foldlM (ingestStored fromStr id) none

/-- The candidate as it is when nothing is stored on the way. -/
def liveCandidate (deliveries : List (Delivery limits)) : Option (CandidateRecord Profile) :=
  deliveries.foldl (fun existing delivery ↦ some (mergeDelivery id existing delivery)) none

/-- The candidate is ingested and read back, and so is the schema that is published from it. -/
def ReadBack (deliveries : List (Delivery limits)) : Prop :=
  ∀ record ∈ liveCandidate id deliveries,
    ingestAll fromStr id deliveries = .ok (some (upsertHash record)) ∧
      loadCandidate fromStr (upsertHash record) = .ok record ∧
      fieldSigFromCanonical fromStr record.profile.generalizedCanonicalJson =
        fieldSigFromNode record.profile.count record.profile.root ∧
      ∃ paths, canonicalFieldPathsFor fromStr generalizer
        record.profile.generalizedCanonicalJson = .ok paths

/-! ## The live candidate -/

variable {fromStr id}

theorem liveCandidate_concat (seen : List (Delivery limits)) (delivery : Delivery limits) :
    liveCandidate id (seen ++ [delivery]) =
      some (mergeDelivery id (liveCandidate id seen) delivery) := by
  rw [liveCandidate, List.foldl_append]
  rfl

theorem ingestAll_concat (seen : List (Delivery limits)) (delivery : Delivery limits) :
    ingestAll fromStr id (seen ++ [delivery]) =
      ingestAll fromStr id seen >>= (ingestStored fromStr id · delivery) := by
  rw [ingestAll, List.foldlM_append, ingestAll]
  simp

theorem liveCandidate_eq_none {deliveries : List (Delivery limits)} :
    liveCandidate id deliveries = none ↔ deliveries = [] := by
  cases deliveries using List.reverseRecOn with
  | nil => exact iff_of_true rfl rfl
  | append_singleton seen delivery =>
      rw [liveCandidate_concat]
      simp

/-- The profile of the candidate is the merged profile of its documents. -/
theorem profile_liveCandidate {deliveries : List (Delivery limits)}
    {record : CandidateRecord Profile} (hlive : liveCandidate id deliveries = some record) :
    record.profile = profileOf (deliveries.map Delivery.node) := by
  induction deliveries using List.reverseRecOn generalizing record with
  | nil => cases hlive
  | append_singleton seen delivery ih =>
      rw [liveCandidate_concat] at hlive
      cases Option.some.inj hlive
      rw [List.map_append, List.map_singleton, profileOf_concat]
      cases hseen : liveCandidate id seen with
      | none =>
          rw [liveCandidate_eq_none.mp hseen]
          rfl
      | some before =>
          have hnonempty : seen ≠ [] := by
            rintro rfl
            cases hseen
          rw [if_neg (by simpa using hnonempty), ← ih hseen]
          rfl

/-- What is merged in memory summarizes all the documents. -/
theorem summarizes_liveCandidate {deliveries : List (Delivery limits)}
    {record : CandidateRecord Profile} (hlive : liveCandidate id deliveries = some record) :
    Summarizes record.profile.root (deliveries.map Delivery.node) := by
  rw [profile_liveCandidate hlive]
  exact (profileOf_summarizes _).2

/-! ## What is stored -/

/-- A stored candidate is read back if its text is not nested too deep, and not at all otherwise. -/
theorem loadCandidate_upsertHash {record : CandidateRecord Profile} {limit : ℕ}
    (hsorted : record.profile.root.Sorted)
    (hreads : ReadsStored fromStr limit (storedRecord record)) :
    loadCandidate fromStr (upsertHash record) =
      if (storedRecord record).nesting < limit then .ok record else .error .corruptRecord := by
  unfold ReadsStored at hreads
  unfold loadCandidate
  split_ifs at hreads ⊢ with hnesting
  · have hrecord := candidateFromHash_storedRecord hreads
    have hprofile := profileFromValue_storedProfile hsorted
    rw [upsertHash, hrecord]
    change (profileFromValue (storedProfile record.profile).value).elim
      (Except.error StoredError.corruptProfile) Except.ok >>= _ = _
    rw [hprofile]
    rfl
  · rcases hreads with ⟨message, hmessage⟩
    rw [upsertHash, candidateFromHash, hmessage]
    rfl

/-- As long as every candidate is read back, the hash is that of the live candidate. -/
theorem ingestAll_eq {deliveries : List (Delivery limits)}
    (hload : ∀ seen, seen <+: deliveries → ∀ record ∈ liveCandidate id seen,
      loadCandidate fromStr (upsertHash record) = .ok record) :
    ingestAll fromStr id deliveries = .ok ((liveCandidate id deliveries).map upsertHash) := by
  induction deliveries using List.reverseRecOn with
  | nil => rfl
  | append_singleton seen delivery ih =>
      have hseen := ih fun before hbefore ↦
        hload before (hbefore.trans (List.prefix_append seen [delivery]))
      rw [ingestAll_concat, hseen, liveCandidate_concat]
      cases hlive : liveCandidate id seen with
      | none => rfl
      | some record =>
          have hrecord := hload seen (List.prefix_append seen [delivery]) record hlive
          change ingestStored fromStr id (some (upsertHash record)) delivery = _
          rw [ingestStored, hrecord]
          rfl

/-! ## What is read back -/

theorem exists_profileFieldPaths {profile : Profile} {limit : ℕ} (hsorted : profile.root.Sorted)
    (hnesting : (profileText profile).nesting < limit)
    (hreads : ReadsText fromStr limit (profileText profile)) :
    ∃ paths, canonicalFieldPathsFor fromStr generalizer profile.generalizedCanonicalJson =
      .ok paths := by
  rcases walkMonoidField_adds hsorted profile.count [] ∅ with ⟨paths, -, hmem⟩
  have hfound (path : List PathSegment) : path ∈ paths ↔ IsMonoidPath path profile.root := by
    simp [hmem]
  exact ⟨paths, (profileFieldPaths_eq_ok hsorted hreads).mpr ⟨hnesting, hfound⟩⟩

/-- The record of a candidate can be read exactly if all its documents are within the levels. -/
theorem nesting_lt_iff {deliveries : List (Delivery limits)} {record : CandidateRecord Profile}
    (hlive : liveCandidate id deliveries = some record) :
    (storedRecord record).nesting < recursionLimit ↔
      ∀ delivery ∈ deliveries, WithinLevels 123 [delivery.node] := by
  have hdocs : deliveries.map Delivery.node ≠ [] := by
    rw [Ne, List.map_eq_nil_iff]
    rintro rfl
    cases hlive
  have hiff : (storedRecord record).nesting ≤ 123 + 4 ↔
      ∀ doc ∈ deliveries.map Delivery.node, WithinLevels 123 [doc] :=
    nesting_storedRecord_le (summarizes_liveCandidate hlive) hdocs
  rw [List.forall_mem_map] at hiff
  rw [← hiff]
  exact Nat.lt_succ_iff

/-- The published JSON is nested less than the record. -/
theorem nesting_profileText_lt_of_record {record : CandidateRecord Profile} {limit : ℕ}
    (hsorted : record.profile.root.Sorted) (hnesting : (storedRecord record).nesting < limit) :
    (profileText record.profile).nesting < limit := by
  rw [nesting_storedRecord] at hnesting
  rw [profileText, nesting_viewText_eq hsorted]
  omega

/-- The documents within a depth of 61 are within the levels, whatever their other sizes. -/
theorem withinLevels_of_accepted {config : LimitsConfig} (hdepth : config.maxDepth ≤ 61)
    (delivery : Delivery config.toLimits) : WithinLevels 123 [delivery.node] := by
  intro path hpath
  have hnode : nodeDepth delivery.node ≤ config.maxDepth :=
    nodeDepth_le_of_parseBounded delivery.accepted
  have hlevels := withinLevels_of_depth hnode path hpath
  omega

/-- A candidate that is nested too deep takes no further document. -/
theorem ingestAll_of_deep {seen : List (Delivery limits)} {record : CandidateRecord Profile}
    {limit : ℕ} (hstored : ingestAll fromStr id seen = .ok (some (upsertHash record)))
    (hsorted : record.profile.root.Sorted)
    (hreads : ReadsStored fromStr limit (storedRecord record))
    (hdeep : ¬(storedRecord record).nesting < limit) (next : Delivery limits) :
    ingestAll fromStr id (seen ++ [next]) = .error .corruptRecord := by
  have hload := loadCandidate_upsertHash hsorted hreads
  rw [if_neg hdeep] at hload
  rw [ingestAll_concat, hstored]
  change ingestStored fromStr id (some (upsertHash record)) next = _
  rw [ingestStored, hload]
  rfl

/-- A candidate that is read back has no document beyond the levels. -/
theorem ReadBack.withinLevels {deliveries : List (Delivery limits)}
    {record : CandidateRecord Profile} (hback : ReadBack fromStr id deliveries)
    (hlive : liveCandidate id deliveries = some record)
    (hreads : ReadsStored fromStr recursionLimit (storedRecord record)) :
    ∀ delivery ∈ deliveries, WithinLevels 123 [delivery.node] := by
  have hload := (hback record hlive).2.1
  rw [loadCandidate_upsertHash (summarizes_liveCandidate hlive).sorted hreads] at hload
  split_ifs at hload with hnesting
  exact (nesting_lt_iff hlive).mp hnesting

section

variable {config : LimitsConfig} {deliveries : List (Delivery config.toLimits)}

/-- The candidates of accepted documents stay readable exactly if no document has a position more
than 123 levels deep, counting two for a key and one for an element. -/
theorem readBack_iff (hreads : ∀ seen, seen <+: deliveries → ∀ record ∈ liveCandidate id seen,
      ReadsStored fromStr recursionLimit (storedRecord record) ∧
        ReadsText fromStr recursionLimit (profileText record.profile)) :
    ((∀ seen, seen <+: deliveries → ReadBack fromStr id seen) ↔
      ∀ delivery ∈ deliveries, WithinLevels 123 [delivery.node]) ∧
    (config.maxDepth ≤ 61 → ∀ delivery ∈ deliveries, WithinLevels 123 [delivery.node]) := by
  refine ⟨⟨fun hall ↦ ?_, fun hwithin ↦ ?_⟩, fun hdepth delivery _ ↦
    withinLevels_of_accepted hdepth delivery⟩
  · cases hlive : liveCandidate id deliveries with
    | none =>
        rw [liveCandidate_eq_none.mp hlive]
        simp
    | some record =>
        have hback := hall deliveries (List.prefix_refl deliveries)
        have hrecord := hreads deliveries (List.prefix_refl deliveries) record hlive
        exact hback.withinLevels hlive hrecord.1
  · have hnesting {seen : List (Delivery config.toLimits)} {record : CandidateRecord Profile}
        (hseen : seen <+: deliveries) (hlive : liveCandidate id seen = some record) :
        (storedRecord record).nesting < recursionLimit :=
      (nesting_lt_iff hlive).mpr fun delivery hmem ↦ hwithin delivery (hseen.subset hmem)
    have hload {seen : List (Delivery config.toLimits)} {record : CandidateRecord Profile}
        (hseen : seen <+: deliveries) (hlive : liveCandidate id seen = some record) :
        loadCandidate fromStr (upsertHash record) = .ok record := by
      rw [loadCandidate_upsertHash (summarizes_liveCandidate hlive).sorted
        (hreads seen hseen record hlive).1, if_pos (hnesting hseen hlive)]
    intro seen hseen record hlive
    have hsorted := (summarizes_liveCandidate hlive).sorted
    have hpublished := nesting_profileText_lt_of_record hsorted (hnesting hseen hlive)
    have hpublishedReads := (hreads seen hseen record hlive).2
    refine ⟨?_, hload hseen hlive, fieldSigFromCanonical_of_nesting hsorted hpublished
      hpublishedReads, exists_profileFieldPaths hsorted hpublished hpublishedReads⟩
    rw [ingestAll_eq fun before hbefore _ hbeforeLive ↦
      hload (hbefore.trans hseen) hbeforeLive, hlive, Option.map_some]

end

/-! ## A reader of one candidate -/

theorem write_storedRecord_ne (record : CandidateRecord Profile) (profile : Profile) :
    utf8 (storedRecord record).write ≠ (profileText profile).write := by
  have hkey : (jsonStringLiteral "candidate_id").toList = '"' :: 'c' :: "andidate_id\"".toList := by
    decide
  have hrecord : ∃ rest, (storedRecord record).write.toList = '\x7b' :: '"' :: 'c' :: rest := by
    rw [storedRecord, StoredText.write, writeStored]
    simp only [String.toList_append, hkey]
    exact ⟨_, rfl⟩
  have hprofile : ∃ rest, (profileText profile).write = 0x7B :: 0x22 :: 0x6F :: rest := by
    rw [profileText, view_eq]
    exact ⟨_, rfl⟩
  rcases hrecord with ⟨rest, hrecord⟩
  rcases hprofile with ⟨others, hprofile⟩
  rw [utf8, hrecord, hprofile]
  intro hsame
  have hthird := congrArg (·[2]?) hsame
  revert hthird
  simp [String.utf8EncodeChar]

/-- A JSON library that knows what is stored and what is published of one candidate. -/
def candidateReader (record : CandidateRecord Profile) (bytes : Bytes) : Except String Value :=
  if bytes = utf8 (storedRecord record).write then
    if (storedRecord record).nesting < recursionLimit then .ok (storedRecord record).value
    else .error "recursion limit exceeded"
  else if bytes = (profileText record.profile).write then .ok (profileText record.profile).value
  else .error "expected value"

/-- It reads whatever a candidate with one document has stored. -/
theorem candidateReader_reads {delivery : Delivery limits} {record : CandidateRecord Profile}
    (hlive : liveCandidate id [delivery] = some record)
    (hnesting : (profileText record.profile).nesting < recursionLimit) :
    ∀ seen, seen <+: [delivery] → ∀ other ∈ liveCandidate id seen,
      ReadsStored (candidateReader record) recursionLimit (storedRecord other) ∧
        ReadsText (candidateReader record) recursionLimit (profileText other.profile) := by
  intro seen hseen other hother
  rcases List.prefix_cons_iff.mp hseen with rfl | ⟨rest, rfl, hrest⟩
  · cases hother
  · rw [List.prefix_nil.mp hrest, hlive] at hother
    cases hother
    have hne := write_storedRecord_ne record record.profile
    constructor
    · unfold ReadsStored candidateReader
      rw [if_pos rfl]
      split_ifs
      · rfl
      · exact ⟨_, rfl⟩
    · unfold ReadsText candidateReader
      rw [if_pos hnesting, if_neg hne.symm, if_pos rfl]

/-- A document of one field, within the default limits. -/
def shallowDelivery : Delivery (LimitsConfig.toLimits ⟨1024 * 1024, 32, 1024⟩) where
  payload := ascii "\x7b\"a\":1\x7d"
  node := numbers ["a"]
  accepted := by rfl
  source := "orders"
  nowMs := 0

def shallowId : CandidateId :=
  .fromDigest (digestOfNat 0xbcd4801b61f055dc75ce23ace9fb5f696987c6d706c4178bfed1633a79a7da03)

theorem readBack_iff_shallow : ∃ fromStr, ReadBack fromStr shallowId [shallowDelivery] := by
  have hlive : liveCandidate shallowId [shallowDelivery] =
      some (mergeDelivery shallowId none shallowDelivery) := rfl
  have hnesting : (profileText (mergeDelivery shallowId none shallowDelivery).profile).nesting <
      recursionLimit := by
    decide +kernel
  have hiff := readBack_iff (candidateReader_reads hlive hnesting)
  exact ⟨_, hiff.1.mpr (hiff.2 (by decide)) _ (List.prefix_refl _)⟩

/-- Objects inside each other with a number in the innermost one. -/
def nestedBytes : ℕ → Bytes
  | 0 => ascii "1"
  | levels + 1 => ascii "\x7b\"a\":" ++ nestedBytes levels ++ ascii "\x7d"

/-- A configuration that accepts objects up to a depth of 62. -/
def deepConfig : LimitsConfig := ⟨1024 * 1024, 62, 1024⟩

/-- The parser accepts such objects, as deep as they are. -/
theorem exists_deepDelivery : ∃ delivery : Delivery deepConfig.toLimits,
    delivery.payload = nestedBytes 62 ∧
      nodesAt (List.replicate 62 (.key "a")) [delivery.node] ≠ [] := by
  have hparse : (parseBounded (nestedBytes 62) deepConfig.toLimits).map (fun node ↦
      (nodesAt (List.replicate 62 (.key "a")) [node]).isEmpty) = .ok false := by
    decide +kernel
  cases haccepted : parseBounded (nestedBytes 62) deepConfig.toLimits with
  | error reason =>
      rw [haccepted] at hparse
      cases hparse
  | ok node =>
      rw [haccepted] at hparse
      have hpath : nodesAt (List.replicate 62 (.key "a")) [node] ≠ [] := by
        simpa using Except.ok.inj hparse
      exact ⟨⟨_, node, haccepted, "orders", 0⟩, rfl, hpath⟩

theorem deep_notReadBack :
    ∃ (delivery : Delivery deepConfig.toLimits) (fromStr : Bytes → Except String Value),
      delivery.payload = nestedBytes 62 ∧
      (∀ seen, seen <+: [delivery] → ∀ record ∈ liveCandidate shallowId seen,
        ReadsStored fromStr recursionLimit (storedRecord record) ∧
          ReadsText fromStr recursionLimit (profileText record.profile)) ∧
      ¬ReadBack fromStr shallowId [delivery] ∧
      ∀ next, ingestAll fromStr shallowId [delivery, next] = .error .corruptRecord := by
  rcases exists_deepDelivery with ⟨delivery, hpayload, hpath⟩
  have hlive : liveCandidate shallowId [delivery] =
      some (mergeDelivery shallowId none delivery) := rfl
  have hsummary := summarizes_liveCandidate hlive
  have hdepth : ∀ doc ∈ [delivery].map Delivery.node, nodeDepth doc ≤ 62 := by
    rw [List.map_singleton, List.forall_mem_singleton]
    exact nodeDepth_le_of_parseBounded delivery.accepted
  have hpublished : (profileText (mergeDelivery shallowId none delivery).profile).nesting <
      recursionLimit :=
    (nesting_viewText_le hsummary _ 62 hdepth).trans_lt (by decide)
  have hreads := candidateReader_reads hlive hpublished
  have hrecord := (hreads _ (List.prefix_refl _) _ hlive).1
  have hbeyond : ¬∀ other ∈ [delivery], WithinLevels 123 [other.node] := fun hwithin ↦
    absurd (hwithin delivery List.mem_cons_self _ hpath) (by decide)
  have hdeep := hbeyond ∘ (nesting_lt_iff hlive).mp
  have hstored : ingestAll (candidateReader (mergeDelivery shallowId none delivery)) shallowId
      [delivery] = .ok (some (upsertHash (mergeDelivery shallowId none delivery))) := rfl
  refine ⟨delivery, _, hpayload, hreads, fun hback ↦ hbeyond (hback.withinLevels hlive hrecord),
    fun next ↦ ?_⟩
  have hlast := ingestAll_of_deep hstored hsummary.sorted hrecord hdeep next
  rw [List.singleton_append] at hlast
  exact hlast

end Deblob.Cold
