import Deblob.Cold.PromotedRecord
import Deblob.Lib.Naming
import Deblob.Redis.VaultRuns
import Deblob.Retrieval.CanonicalRanking
import Deblob.Retrieval.Flattening
import Deblob.Retrieval.Indiscernible
import Deblob.Retrieval.Policy
import Deblob.Retrieval.SelfRetrieval
import Mathlib.Data.Finset.Sort

/-!
# The neighborhood of a candidate

A candidate is compared with the schemas whose bucket has a band and a depth next to its own,
whatever their keys are. The buckets are found by their prefix and read member by member, while
publications go on. What was in such a bucket at the start is found, each schema once and as it is
stored, so a shape that was published before is always its own nearest match.
-/

namespace Deblob.Retrieval

open Core Lib Fingerprint Redis Deblob.Monoid Semantic
open Cold (Promoter PromoteBody PromoteMoment generalizedShapeSummary bucketOf concreteVariant
  canonicalText utf8_canonicalText schemaOf draftRecord publishContext promoterA promotedA bodyA
  momentA recordA draftA vaultA publishRecord_draftA jsonKnowing jsonKnowing_readsBack ordersFamily
  ordersSha256 numbers)
open Umbrella (Value)

/-! ## The buckets next to a candidate -/

/-- A pattern for `SCAN`; only its last character is special. -/
def bandDepthPrefix (band depth : ℕ) : String :=
  "deblob:index:" ++ toString band ++ ":" ++ toString depth ++ ":*"

/-- A pattern with one star at its end matches what begins with the rest of it. -/
def matchesPattern (pattern key : String) : Bool := pattern.toList.dropLast.isPrefixOf key.toList

def sortedSet (values : List ℕ) : List ℕ := values.toFinset.sort (· ≤ ·)

/-- The bands and the depths next to those of the candidate. -/
def neighborBandsAndDepths (profile : Profile) : List ℕ × List ℕ :=
  let summary := generalizedShapeSummary profile
  (sortedSet ([summary.topLevelFields - 1, summary.topLevelFields, summary.topLevelFields + 1].map
      fieldband),
    sortedSet [summary.depth - 1, summary.depth, summary.depth + 1])

@[simp]
theorem mem_sortedSet {values : List ℕ} {value : ℕ} :
    value ∈ sortedSet values ↔ value ∈ values := by
  simp [sortedSet]

/-- The pattern of a band and a depth finds exactly the buckets of that band and depth. -/
theorem matchesPattern_bucketKey (sha256 : Bytes → Digest) (summary : ShapeSummary)
    (band depth : ℕ) :
    matchesPattern (bandDepthPrefix band depth) (bucketKey sha256 summary) = true ↔
      fieldband summary.topLevelFields = band ∧ summary.depth = depth := by
  have hcolon (number : ℕ) : ∀ char ∈ Nat.toDigits 10 number, ¬ char = ':' := by
    rintro char hchar rfl
    exact absurd (Nat.isDigit_of_mem_toDigits (by decide) (by decide) hchar) (by decide)
  have hnumber {left right : ℕ} (heq : Nat.toDigits 10 left = Nat.toDigits 10 right) :
      left = right := by
    rw [← Nat.ofDigitChars_ten_toDigits (n := left), heq, Nat.ofDigitChars_ten_toDigits]
  have hpattern : (bandDepthPrefix band depth).toList.dropLast = "deblob:index:".toList ++
      (Nat.toDigits 10 band ++ (':' :: (Nat.toDigits 10 depth ++ [':']))) := by
    have hcolons : ":".toList = [':'] ∧ ":*".toList = [':', '*'] := ⟨rfl, rfl⟩
    have htext : (bandDepthPrefix band depth).toList = ("deblob:index:".toList ++
        (Nat.toDigits 10 band ++ (':' :: (Nat.toDigits 10 depth ++ [':'])))) ++ ['*'] := by
      unfold bandDepthPrefix
      simp only [String.toList_append, Nat.toString_eq_repr, Nat.toList_repr, List.append_assoc,
        hcolons, List.cons_append, List.nil_append]
    rw [htext, List.dropLast_concat]
  have hsplit := @append_inj_of_marked Char (fun char ↦ char = ':')
  rw [matchesPattern, List.isPrefixOf_iff_prefix, hpattern, toList_bucketKey,
    List.prefix_append_right_inj]
  constructor
  · rintro ⟨rest, hrest⟩
    simp only [List.append_assoc, List.cons_append, List.nil_append] at hrest
    rcases hsplit (hcolon band) (hcolon _) (by simp) (by simp) hrest with ⟨hband, htail⟩
    rcases hsplit (hcolon depth) (hcolon _) (by simp) (by simp) (List.cons.inj htail).2 with
      ⟨hdepth, -⟩
    exact ⟨(hnumber hband).symm, (hnumber hdepth).symm⟩
  · rintro ⟨rfl, rfl⟩
    exact ⟨(reqhash8 sha256 summary.topKeysSorted).toList, by simp⟩

/-- The candidate's own bucket, and those of its neighbors, are in its window. -/
theorem mem_neighborBandsAndDepths {profile other : Profile}
    (hfields : (generalizedShapeSummary other).topLevelFields ≤
        (generalizedShapeSummary profile).topLevelFields + 1 ∧
      (generalizedShapeSummary profile).topLevelFields ≤
        (generalizedShapeSummary other).topLevelFields + 1)
    (hdepth : (generalizedShapeSummary other).depth ≤ (generalizedShapeSummary profile).depth + 1 ∧
      (generalizedShapeSummary profile).depth ≤ (generalizedShapeSummary other).depth + 1) :
    fieldband (generalizedShapeSummary other).topLevelFields ∈ (neighborBandsAndDepths profile).1 ∧
      (generalizedShapeSummary other).depth ∈ (neighborBandsAndDepths profile).2 := by
  unfold neighborBandsAndDepths
  simp only [mem_sortedSet]
  constructor
  · refine List.mem_map_of_mem ?_
    simp only [List.mem_cons, List.not_mem_nil, or_false]
    omega
  · simp only [List.mem_cons, List.not_mem_nil, or_false]
    omega

/-! ## Reading the buckets -/

inductive ListError where
  | corruptMember (bucket member : String)
  | schema (error : GetSchemaError)
deriving DecidableEq

def refOf (record : SchemaRecord) : FamilyRef :=
  ⟨record.familyId, record.schemaId, record.version, utf8 record.canonical⟩

/-- The schemas that the members name, each once; a member without a separator is skipped. `read`
is `get_schema` at the time of the call. -/
def collectRefs (read : SchemaId → Except GetSchemaError (Option SchemaRecord)) :
    List String → List (String × String) → Except ListError (List FamilyRef)
  | _, [] => .ok []
  | seen, found :: members =>
    match splitOnce '=' found.2 with
    | none => collectRefs read seen members
    | some halves =>
      if halves.2 ∈ seen then collectRefs read seen members
      else
        match (DigestId.parse halves.2 : Option SchemaId) with
        | none => .error (.corruptMember found.1 found.2)
        | some id =>
          match read id with
          | .error error => .error (.schema error)
          | .ok none => collectRefs read (halves.2 :: seen) members
          | .ok (some record) =>
            (collectRefs read (halves.2 :: seen) members).map (refOf record :: ·)

/-- The replies to the scans of one lookup: the keys that match the pattern of a band and a depth,
and the members of a bucket. -/
structure NeighborScan where
  buckets : ℕ → ℕ → List BucketKey
  members : BucketKey → List String

def listFamiliesInBuckets (read : SchemaId → Except GetSchemaError (Option SchemaRecord))
    (scan : NeighborScan) (buckets : List BucketKey) : Except ListError (List FamilyRef) :=
  collectRefs read [] (buckets.flatMap fun bucket ↦
    (scan.members bucket).map fun member ↦ (bucket.text, member))

/-- The keys of all bands and depths, each once and in order. -/
def discoveredBuckets (scan : NeighborScan) (bands depths : List ℕ) : List BucketKey :=
  sortOn BucketKey.text
    (bands.flatMap fun band ↦ depths.flatMap fun depth ↦ scan.buckets band depth).dedup

def listFamiliesByBandDepth (read : SchemaId → Except GetSchemaError (Option SchemaRecord))
    (scan : NeighborScan) (bands depths : List ℕ) : Except ListError (List FamilyRef) :=
  listFamiliesInBuckets read scan (discoveredBuckets scan bands depths)

/-- `retrieve_topk` with its lookup. -/
def retrieveNeighbors (unicode : Unicode) (fromStr : Bytes → Except String Value)
    (read : SchemaId → Except GetSchemaError (Option SchemaRecord)) (scan : NeighborScan)
    (candidate : Profile) (k : ℕ) : Except ListError RetrievalResult :=
  let window := neighborBandsAndDepths candidate
  (listFamiliesByBandDepth read scan window.1 window.2).map fun refs ↦
    retrieveTopk unicode fromStr candidate refs k

section

variable {read : SchemaId → Except GetSchemaError (Option SchemaRecord)}

/-- Members that name schemas which can be read give one reference for each of these schemas. -/
theorem collectRefs_spec {seen : List String} {members : List (String × String)}
    (hmembers : ∀ found ∈ members, ∃ id record, memberSchema found.2 = some id ∧
      read id = .ok (some record) ∧ record.schemaId = id) :
    ∃ refs, collectRefs read seen members = .ok refs ∧ (refs.map FamilyRef.schemaId).Nodup ∧
      (∀ ref ∈ refs, ref.schemaId.asStr ∉ seen ∧
        (∃ found ∈ members, memberSchema found.2 = some ref.schemaId) ∧
        ∃ record, read ref.schemaId = .ok (some record) ∧ ref = refOf record) ∧
      ∀ found ∈ members, ∀ id, memberSchema found.2 = some id → id.asStr ∉ seen →
        ∃ ref ∈ refs, ref.schemaId = id := by
  induction members generalizing seen with
  | nil => exact ⟨[], rfl, List.nodup_nil, by simp, by simp⟩
  | cons found members ih =>
      have hrest : ∀ found ∈ members, ∃ id record, memberSchema found.2 = some id ∧
          read id = .ok (some record) ∧ record.schemaId = id :=
        fun other hother ↦ hmembers other (List.mem_cons_of_mem _ hother)
      rcases hmembers found List.mem_cons_self with ⟨id, record, hmember, hread, hrecord⟩
      rcases Option.bind_eq_some_iff.mp hmember with ⟨halves, hsplit, hparse⟩
      have htext : id.asStr = halves.2 := DigestId.asStr_of_parse hparse
      have hnamed (other : SchemaId) (hother : memberSchema found.2 = some other) : other = id :=
        Option.some_inj.mp (hother.symm.trans hmember)
      by_cases hseen : halves.2 ∈ seen
      · have hcollect :
            collectRefs read seen (found :: members) = collectRefs read seen members := by
          rw [collectRefs, hsplit]
          exact if_pos hseen
        rcases @ih seen hrest with ⟨refs, hrefs, hnodup, hsound, hcomplete⟩
        refine ⟨refs, hcollect.trans hrefs, hnodup, fun ref href ↦ ?_, fun other hother ↦ ?_⟩
        · rcases hsound ref href with ⟨hfresh, ⟨source, hsource, hnames⟩, hstored⟩
          exact ⟨hfresh, ⟨source, List.mem_cons_of_mem _ hsource, hnames⟩, hstored⟩
        · intro named hnames hfresh
          rcases List.mem_cons.mp hother with rfl | hmem
          · rw [hnamed named hnames, htext] at hfresh
            exact absurd hseen hfresh
          · exact hcomplete other hmem named hnames hfresh
      · rcases @ih (halves.2 :: seen) hrest with ⟨refs, hrefs, hnodup, hsound, hcomplete⟩
        have hcollect : collectRefs read seen (found :: members) = .ok (refOf record :: refs) := by
          rw [collectRefs, hsplit]
          dsimp only
          rw [if_neg hseen]
          have hid : (DigestId.parse halves.2 : Option SchemaId) = some id := hparse
          rw [hid]
          dsimp only
          rw [hread]
          dsimp only
          rw [hrefs]
          rfl
        have hown : (refOf record).schemaId = id := hrecord
        refine ⟨refOf record :: refs, hcollect, ?_, fun ref href ↦ ?_, fun other hother ↦ ?_⟩
        · refine List.nodup_cons.mpr ⟨fun hmem ↦ ?_, hnodup⟩
          rcases List.mem_map.mp hmem with ⟨ref, href, heq⟩
          apply (hsound ref href).1
          rw [heq, hown, htext]
          exact List.mem_cons_self
        · rcases List.mem_cons.mp href with rfl | hmem
          · rw [hown]
            refine ⟨htext ▸ hseen, ⟨found, List.mem_cons_self, hmember⟩, record, hread, rfl⟩
          · rcases hsound ref hmem with ⟨hfresh, ⟨source, hsource, hnames⟩, hstored⟩
            exact ⟨fun hold ↦ hfresh (List.mem_cons_of_mem _ hold),
              ⟨source, List.mem_cons_of_mem _ hsource, hnames⟩, hstored⟩
        · intro named hnames hfresh
          by_cases hsame : named = id
          · subst hsame
            exact ⟨refOf record, List.mem_cons_self, hown⟩
          · rcases List.mem_cons.mp hother with rfl | hmem
            · exact absurd (hnamed named hnames) hsame
            · have hstill : named.asStr ∉ halves.2 :: seen := by
                rw [List.mem_cons, not_or, ← htext]
                exact ⟨fun heq ↦ hsame (DigestId.asStr_injective heq), hfresh⟩
              rcases hcomplete other hmem named hnames hstill with ⟨ref, href, heq⟩
              exact ⟨ref, List.mem_cons_of_mem _ href, heq⟩

end

/-! ## Lookups while publications go on -/

/-- A scan between `start` and `last`: it returns what was there all the time and only what it saw,
and `reads` are the vaults in which the schemas are read after their members were found. -/
structure ScannedBetween (start : SchemaVault) (reads : SchemaId → SchemaVault) (last : SchemaVault)
    (scan : NeighborScan) : Prop where
  buckets_complete : ∀ band depth bucket, (start.registry.index bucket).Nonempty →
    matchesPattern (bandDepthPrefix band depth) bucket.text = true →
      bucket ∈ scan.buckets band depth
  buckets_sound : ∀ band depth, ∀ bucket ∈ scan.buckets band depth,
    matchesPattern (bandDepthPrefix band depth) bucket.text = true
  members_complete : ∀ bucket, ∀ member ∈ start.registry.index bucket, member ∈ scan.members bucket
  members_sound : ∀ bucket, ∀ member ∈ scan.members bucket, member ∈ last.registry.index bucket ∧
    ∀ id, memberSchema member = some id → member ∈ (reads id).registry.index bucket

/-- The bucket has one of the bands and one of the depths. -/
def InWindow (bands depths : List ℕ) (bucket : BucketKey) : Prop :=
  ∃ band ∈ bands, ∃ depth ∈ depths, matchesPattern (bandDepthPrefix band depth) bucket.text = true

section

variable {json : RecordJson} {vault start last : SchemaVault}
  {reads : SchemaId → SchemaVault} {scan : NeighborScan} {bands depths : List ℕ}

theorem refOf_eq {record : SchemaRecord} {id : SchemaId} {hash : SchemaHash}
    (hrecord : ReadAs record id hash) :
    refOf record = ⟨hash.family, id, hash.version, utf8 hash.canonical⟩ := by
  rw [refOf, hrecord.schemaId, hrecord.familyId, hrecord.version, hrecord.canonical]

/-- The keys that are discovered are the found ones of the bands and the depths. -/
theorem mem_discoveredBuckets {bucket : BucketKey} :
    bucket ∈ discoveredBuckets scan bands depths ↔
      ∃ band ∈ bands, ∃ depth ∈ depths, bucket ∈ scan.buckets band depth := by
  simp [discoveredBuckets, mem_sortOn]

/-- What a scan returns if nobody else is at work; `keys` are the keys of the index. -/
def scanOf (vault : SchemaVault) (keys : List BucketKey) : NeighborScan where
  buckets band depth := keys.filter fun bucket ↦
    matchesPattern (bandDepthPrefix band depth) bucket.text
  members bucket := (vault.registry.index bucket).sort (· ≤ ·)

theorem scannedBetween_scanOf {keys : List BucketKey}
    (hkeys : ∀ bucket, (vault.registry.index bucket).Nonempty → bucket ∈ keys) :
    ScannedBetween vault (fun _ ↦ vault) vault (scanOf vault keys) where
  buckets_complete _ _ bucket hbucket hmatches :=
    List.mem_filter.mpr ⟨hkeys bucket hbucket, hmatches⟩
  buckets_sound _ _ _ hbucket := (List.mem_filter.mp hbucket).2
  members_complete _ _ hmember := (Finset.mem_sort _).mpr hmember
  members_sound _ _ hmember :=
    ⟨(Finset.mem_sort _).mp hmember, fun _ _ ↦ (Finset.mem_sort _).mp hmember⟩

/-- A lookup succeeds; it finds each schema that a found member names once, and as it is stored. -/
theorem exists_refs (hstart : (vaultMachine json).Reachable (plainPublications json) start)
    (hreads : ∀ id, (vaultMachine json).ReachableFrom (plainPublications json) start (reads id))
    (hlast : ∀ id, (vaultMachine json).ReachableFrom (plainPublications json) (reads id) last)
    (hfits : VersionsFit last) (hscan : ScannedBetween start reads last scan) :
    ∃ refs, listFamiliesByBandDepth (fun id ↦ getSchema json (reads id) id) scan bands depths =
        .ok refs ∧
      (refs.map FamilyRef.schemaId).Nodup ∧
      (∀ bucket ∈ discoveredBuckets scan bands depths, ∀ member ∈ scan.members bucket, ∀ id,
        memberSchema member = some id → ∃ ref ∈ refs, ref.schemaId = id) ∧
      ∀ ref ∈ refs,
        (∃ bucket ∈ discoveredBuckets scan bands depths, ∃ member ∈ scan.members bucket,
          memberSchema member = some ref.schemaId) ∧
        ∃ hash, last.registry.schemas ref.schemaId = some hash ∧
          ref = ⟨hash.family, ref.schemaId, hash.version, utf8 hash.canonical⟩ := by
  have hlistable (id : SchemaId) : Listable json (reads id) :=
    listable_reachable (hstart.trans (hreads id))
  have hend : Listable json last := by
    have hany : SchemaId := .fromDigest (.replicate 32 0)
    exact listable_reachable ((hstart.trans (hreads hany)).trans (hlast hany))
  -- what a found member names is there when it is read, and stays as it was read
  have hfound (bucket : BucketKey) (member : String) (hmember : member ∈ scan.members bucket) :
      ∃ id hash record, memberSchema member = some id ∧ last.registry.schemas id = some hash ∧
        getSchema json (reads id) id = .ok (some record) ∧
        refOf record = ⟨hash.family, id, hash.version, utf8 hash.canonical⟩ := by
    rcases hscan.members_sound bucket member hmember with ⟨hlate, hseen⟩
    rcases hend.named bucket member hlate with ⟨id, hnames, -⟩
    rcases (hlistable id).named bucket member (hseen id hnames) with ⟨other, hother, hsome⟩
    obtain rfl : id = other := Option.some.inj (hnames.symm.trans hother)
    rcases Option.isSome_iff_exists.mp hsome with ⟨hash, hhash⟩
    rcases (keeps_of_reachable (hlast id)).schemas id hash hhash with ⟨variants, hkept⟩
    rcases (hlistable id).getSchema_eq hhash
      (hfits id { hash with variants } hkept) with ⟨record, hread, hrecord⟩
    have href := refOf_eq hrecord
    exact ⟨id, _, record, hnames, hkept, hread, href⟩
  have hmembers : ∀ found ∈ (discoveredBuckets scan bands depths).flatMap (fun bucket ↦
      (scan.members bucket).map fun member ↦ (bucket.text, member)),
      ∃ bucket ∈ discoveredBuckets scan bands depths, found.2 ∈ scan.members bucket := by
    intro found hmem
    rcases List.mem_flatMap.mp hmem with ⟨bucket, hbucket, hpair⟩
    rcases List.mem_map.mp hpair with ⟨member, hmember, rfl⟩
    exact ⟨bucket, hbucket, hmember⟩
  have hcollect := @collectRefs_spec (fun id ↦ getSchema json (reads id) id) []
    ((discoveredBuckets scan bands depths).flatMap fun bucket ↦
      (scan.members bucket).map fun member ↦ (bucket.text, member)) ?_
  · rcases hcollect with ⟨refs, hrefs, hnodup, hsound, hcomplete⟩
    refine ⟨refs, hrefs, hnodup, fun bucket hbucket member hmember id hnames ↦ ?_,
      fun ref href ↦ ?_⟩
    · refine hcomplete (bucket.text, member) ?_ id hnames (by simp)
      exact List.mem_flatMap.mpr ⟨bucket, hbucket, List.mem_map_of_mem hmember⟩
    · rcases (hsound ref href).2 with ⟨⟨found, hmem, hnames⟩, record, hread, rfl⟩
      rcases hmembers found hmem with ⟨bucket, hbucket, hmember⟩
      rcases hfound bucket found.2 hmember with ⟨id, hash, other, hid, hhash, hother, href⟩
      obtain rfl : id = (refOf record).schemaId := Option.some.inj (hid.symm.trans hnames)
      obtain rfl : other = record := Option.some.inj (Except.ok.inj (hother.symm.trans hread))
      exact ⟨⟨bucket, hbucket, found.2, hmember, hnames⟩, hash, hhash, href⟩
  · intro found hmem
    rcases hmembers found hmem with ⟨bucket, -, hmember⟩
    rcases hfound bucket found.2 hmember with ⟨id, hash, record, hid, hhash, hread, href⟩
    exact ⟨id, record, hid, hread, congrArg FamilyRef.schemaId href⟩

/-- What was in the window at the start is discovered. -/
theorem ScannedBetween.mem_discoveredBuckets (hscan : ScannedBetween start reads last scan)
    {bucket : BucketKey} {member : String} (hwindow : InWindow bands depths bucket)
    (hmember : member ∈ start.registry.index bucket) :
    bucket ∈ discoveredBuckets scan bands depths := by
  rcases hwindow with ⟨band, hband, depth, hdepth, hmatches⟩
  exact Retrieval.mem_discoveredBuckets.mpr ⟨band, hband, depth, hdepth,
    hscan.buckets_complete band depth bucket ⟨member, hmember⟩ hmatches⟩

/-- A lookup finds every schema that has a member in its window at the start, and what it finds has
such a member at the end and is stored like that; no schema is found twice. -/
theorem neighborhood_exact
    (hstart : (vaultMachine json).Reachable (plainPublications json) start)
    (hreads : ∀ id, (vaultMachine json).ReachableFrom (plainPublications json) start (reads id))
    (hlast : ∀ id, (vaultMachine json).ReachableFrom (plainPublications json) (reads id) last)
    (hfits : VersionsFit last) (hscan : ScannedBetween start reads last scan) :
    ∃ refs, listFamiliesByBandDepth (fun id ↦ getSchema json (reads id) id) scan bands depths =
        .ok refs ∧
      (refs.map FamilyRef.schemaId).Nodup ∧
      (∀ bucket, InWindow bands depths bucket → ∀ member ∈ start.registry.index bucket, ∀ id,
        memberSchema member = some id → ∃ ref ∈ refs, ref.schemaId = id) ∧
      ∀ ref ∈ refs,
        (∃ bucket, InWindow bands depths bucket ∧ ∃ member ∈ last.registry.index bucket,
          memberSchema member = some ref.schemaId) ∧
        ∃ hash, last.registry.schemas ref.schemaId = some hash ∧
          ref = ⟨hash.family, ref.schemaId, hash.version, utf8 hash.canonical⟩ := by
  rcases @exists_refs _ _ _ _ _ bands depths hstart hreads hlast hfits hscan with
    ⟨refs, hrefs, hnodup, hcomplete, hsound⟩
  refine ⟨refs, hrefs, hnodup, fun bucket hwindow member hmember id hnames ↦ ?_,
    fun ref href ↦ ⟨?_, (hsound ref href).2⟩⟩
  · exact hcomplete bucket (hscan.mem_discoveredBuckets hwindow hmember) member
      (hscan.members_complete bucket member hmember) id hnames
  · rcases (hsound ref href).1 with ⟨bucket, hbucket, member, hmember, hnames⟩
    rcases mem_discoveredBuckets.mp hbucket with ⟨band, hband, depth, hdepth, hkey⟩
    exact ⟨bucket, ⟨band, hband, depth, hdepth, hscan.buckets_sound band depth bucket hkey⟩,
      member, (hscan.members_sound bucket member hmember).1, hnames⟩

/-- The context that the promotion in the source `orders` publishes in. -/
def contextA : PublishContext :=
  publishContext ordersSha256 promotedA bodyA "admin" (momentA ordersFamily)
    (recordA promotedA "orders")

def scanA : NeighborScan := scanOf vaultA (contextA.bucketKey :: contextA.variants.map Prod.fst)

theorem plain_contextA :
    plainPublications (jsonKnowing draftA) .empty (.publish draftA contextA) := by
  refine ⟨jsonKnowing_readsBack draftA, fun variant hvariant ↦ ?_⟩
  have hvariants : contextA.variants = [concreteVariant ordersSha256 (numbers ["a"])] := by
    simp [contextA, publishContext, momentA, getVariants]
  rw [hvariants, List.mem_singleton] at hvariant
  subst hvariant
  exact eq_notMem_digestBody _

theorem reachable_vaultA :
    (vaultMachine (jsonKnowing draftA)).Reachable (plainPublications (jsonKnowing draftA)) vaultA :=
  .step .refl plain_contextA (congrArg some (congrArg Prod.snd publishRecord_draftA))

/-- The vault after the first publication has one schema, in version one. -/
theorem published_vaultA :
    Published SchemaVault.empty.registry (publishCall (jsonKnowing draftA) draftA contextA) 1
      vaultA.registry := by
  rcases publishScript_cases SchemaVault.empty.registry
    (publishCall (jsonKnowing draftA) draftA contextA) with
    ⟨error, herror⟩ | ⟨version, next, hok, hpublished⟩
  · cases herror
  · cases hok
    exact hpublished

theorem versionsFit_vaultA : VersionsFit vaultA := by
  intro id hash hhash
  by_cases hid : id = draftA.schemaId
  · subst hid
    obtain rfl := Option.some.inj ((published_vaultA.schemas_of_fresh rfl).symm.trans hhash)
    decide
  · rw [published_vaultA.schemas_of_ne hid] at hhash
    cases hhash

theorem scanned_vaultA : ScannedBetween vaultA (fun _ ↦ vaultA) vaultA scanA := by
  refine scannedBetween_scanOf fun bucket hbucket ↦ ?_
  rcases hbucket with ⟨member, hmember⟩
  rcases (published_vaultA.index bucket member).mp hmember with
    hold | ⟨rfl, -⟩ | ⟨variant, hvariant, rfl, -⟩
  · exact absurd hold (Finset.notMem_empty member)
  · exact List.mem_cons_self
  · exact List.mem_cons_of_mem _ (List.mem_map_of_mem hvariant)

/-- A lookup around the first promoted shape finds its schema. -/
theorem neighborhood_exact_orders :
    ∃ refs, listFamiliesByBandDepth (fun id ↦ getSchema (jsonKnowing draftA) vaultA id) scanA
        (neighborBandsAndDepths (recordA promotedA "orders").profile).1
        (neighborBandsAndDepths (recordA promotedA "orders").profile).2 = .ok refs ∧
      (refs.map FamilyRef.schemaId).Nodup := by
  rcases neighborhood_exact reachable_vaultA (fun _ ↦ .refl) (fun _ ↦ .refl) versionsFit_vaultA
    scanned_vaultA with ⟨refs, hrefs, hnodup, -⟩
  exact ⟨refs, hrefs, hnodup⟩

end

/-! ## The nearest of the neighbors -/

theorem total_computeDistance_nonneg (left right : StructuralFeatures) :
    0 ≤ (computeDistance left right).total := by
  unfold computeDistance DistanceComponents.total nullabilityDistance arrayMapShapeDistance
  dsimp only
  have hpathType := fieldPathTypeDistance_nonneg left right
  have hnames := jaccardDistance_nonneg left.nameTokens right.nameTokens
  have hpresence := jaccardDistance_nonneg left.required right.required
  have hdepth := depthDistance_nonneg left.depth right.depth
  have hnullable := jaccardDistance_nonneg left.nullable right.nullable
  have hunion := jaccardDistance_nonneg (typeUnion left) (typeUnion right)
  have harrays := jaccardDistance_nonneg left.arrayPaths right.arrayPaths
  have hobjects := jaccardDistance_nonneg left.objectPaths right.objectPaths
  linarith

/-- If one of the scored schemas has no distance, then the first representative has none, and its
family is not behind the one of that schema. -/
theorem head_familyRepresentatives {scored : List FamilyCandidate} {found : FamilyCandidate}
    (hnonneg : ∀ candidate ∈ scored, 0 ≤ candidate.distance) (hfound : found ∈ scored)
    (hzero : found.distance = 0) :
    ∃ first rest, familyRepresentatives scored = first :: rest ∧ first ∈ scored ∧
      first.distance = 0 ∧ first.familyId.asStr ≤ found.familyId.asStr := by
  rcases exists_representative hfound with ⟨best, hbest, hfamily⟩
  have hsorted := pairwise_familyRepresentatives scored
  cases hall : familyRepresentatives scored with
  | nil =>
      rw [hall] at hbest
      cases hbest
  | cons first rest =>
      have hfirst : IsRepresentative scored first := .of_mem (hall ▸ List.mem_cons_self)
      have hbestZero : best.distance = 0 := by
        have hle := distance_le_of_versionKey
          ((IsRepresentative.of_mem hbest).least found hfound hfamily.symm)
        have hge := hnonneg best (IsRepresentative.of_mem hbest).mem
        linarith
      have hkey : rankingKey first ≤ rankingKey best := by
        rw [hall] at hbest hsorted
        rcases List.mem_cons.mp hbest with rfl | hrest
        · exact le_rfl
        · exact ((List.pairwise_cons.mp hsorted).1 best hrest).le
      have hfirstZero : first.distance = 0 := by
        have hle := distance_le_of_rankingKey hkey
        have hge := hnonneg first hfirst.mem
        linarith
      refine ⟨first, rest, rfl, hfirst.mem, hfirstZero, ?_⟩
      have hname : first.familyId.asStr ≤ best.familyId.asStr := by
        rcases Prod.Lex.le_iff.mp hkey with hlt | ⟨-, hle⟩
        · have hdistance : first.distance < best.distance := hlt
          rw [hfirstZero, hbestZero] at hdistance
          exact absurd hdistance (lt_irrefl 0)
        · exact hle
      rwa [hfamily] at hname

/-- Once the shape of a candidate was published, every lookup for the candidate has a schema without
any distance on its first place, which has the structure of the candidate and whose family is not
behind the one of the published schema. -/
theorem retrieve_finds_published {sha256 : Bytes → Digest} {unicode : Unicode}
    {fromStr : Bytes → Except String Value} {json : RecordJson} {promoter : Promoter}
    {id : CandidateId} {body : PromoteBody} {actor : String} {moment : PromoteMoment}
    {candidate : CandidateRecord Profile} {captured : Option ValueProfileSummary}
    {tree : MergeTree Node} {vault next start last : SchemaVault} {version k : ℕ}
    {reads : SchemaId → SchemaVault} {scan : NeighborScan}
    (hprofile : candidate.profile = profileOfTree tree)
    (hdepth : ∀ doc ∈ tree.values, nodeDepth doc ≤ (default : Limits).maxDepth)
    (htext : ReadsText fromStr recursionLimit (profileText (profileOfTree tree)))
    (hbefore : (vaultMachine json).Reachable (plainPublications json) vault)
    (hplain : plainPublications json vault
      (.publish (draftRecord sha256 promoter id body actor moment candidate captured)
        (publishContext sha256 id body actor moment candidate)))
    (hpublish : publishRecord json vault
      (draftRecord sha256 promoter id body actor moment candidate captured)
      (publishContext sha256 id body actor moment candidate) = (.ok version, next))
    (hstart : (vaultMachine json).ReachableFrom (plainPublications json) next start)
    (hreads : ∀ id, (vaultMachine json).ReachableFrom (plainPublications json) start (reads id))
    (hlast : ∀ id, (vaultMachine json).ReachableFrom (plainPublications json) (reads id) last)
    (hfits : VersionsFit last) (hscan : ScannedBetween start reads last scan) (hk : 0 < k) :
    ∃ result first, retrieveNeighbors unicode fromStr (fun id ↦ getSchema json (reads id) id) scan
        candidate.profile k = .ok result ∧
      result.candidates.head? = some first ∧ first.rank = 1 ∧ first.distance = 0 ∧
      (∃ hash, last.registry.schemas first.schemaId = some hash ∧ hash.family = first.familyId ∧
        hash.version = first.version ∧
        extractFeatures unicode (fieldSigFromCanonical fromStr (utf8 hash.canonical)) =
          extractFeatures unicode
            (fieldSigFromNode candidate.profile.count candidate.profile.root)) ∧
      ∃ own, last.registry.schemas (schemaOf sha256 candidate) = some own ∧
        first.familyId.asStr ≤ own.family.asStr := by
  have hnext : (vaultMachine json).Reachable (plainPublications json) next := by
    refine hbefore.step hplain ?_
    exact congrArg some (congrArg Prod.snd hpublish)
  have hreached := hnext.trans hstart
  rcases published_slot hpublish with ⟨hmember, hash, hhash, hcanonical⟩
  rcases exists_refs hreached hreads hlast hfits hscan with ⟨refs, hrefs, -, hcomplete, hsound⟩
  have hwindow : InWindow (neighborBandsAndDepths candidate.profile).1
      (neighborBandsAndDepths candidate.profile).2
      (bucketOf sha256 (generalizedShapeSummary candidate.profile)) := by
    have hown := @mem_neighborBandsAndDepths candidate.profile candidate.profile
      ⟨by omega, by omega⟩ ⟨by omega, by omega⟩
    exact ⟨_, hown.1, _, hown.2, (matchesPattern_bucketKey sha256 _ _ _).mpr ⟨rfl, rfl⟩⟩
  -- the published schema is among the references, with the text it was published with
  have hindexed := (keeps_of_reachable hstart).index _ hmember
  rcases hcomplete _ (hscan.mem_discoveredBuckets hwindow hindexed) _
    (hscan.members_complete _ _ hindexed) (schemaOf sha256 candidate)
    (memberSchema_variantMember (DigestId.eq_notMem_body _)) with ⟨own, hown, hid⟩
  rcases (hsound own hown).2 with ⟨stored, hstored, hownEq⟩
  have hkept : Keeps next last := by
    have hany : SchemaId := schemaOf sha256 candidate
    exact (keeps_of_reachable hstart).trans
      ((keeps_of_reachable (hreads hany)).trans (keeps_of_reachable (hlast hany)))
  have hcontent : stored.canonical = canonicalText candidate.profile := by
    rcases hkept.schemas _ hash hhash with ⟨variants, hlater⟩
    rw [hid] at hstored
    obtain rfl := Option.some.inj (hlater.symm.trans hstored)
    exact hcanonical
  let features := extractFeatures unicode
    (fieldSigFromNode candidate.profile.count candidate.profile.root)
  have hzero : (score unicode fromStr features own).distance = 0 := by
    have hsig : fieldSigFromCanonical fromStr own.canonical =
        fieldSigFromNode candidate.profile.count candidate.profile.root := by
      rw [hownEq]
      dsimp only
      rw [hcontent, utf8_canonicalText, hprofile]
      exact fieldSigFromCanonical_eq hdepth htext
    unfold score
    dsimp only
    rw [hsig]
    exact total_computeDistance_self features
  have hnonneg : ∀ scored ∈ scoreRefs unicode fromStr features refs, 0 ≤ scored.distance := by
    intro scored hscored
    rcases List.mem_map.mp hscored with ⟨ref, -, rfl⟩
    exact total_computeDistance_nonneg _ _
  rcases head_familyRepresentatives hnonneg (List.mem_map_of_mem hown) hzero with
    ⟨first, rest, hrepresentatives, hfirst, hfirstZero, hname⟩
  rcases List.mem_map.mp hfirst with ⟨ref, href, rfl⟩
  rcases (hsound ref href).2 with ⟨found, hfoundHash, hrefEq⟩
  refine ⟨retrieveTopk unicode fromStr candidate.profile refs k,
    { score unicode fromStr features ref with rank := 1 }, ?_, ?_, rfl, hfirstZero,
    ⟨found, hfoundHash, ?_, ?_, ?_⟩, stored, ?_, ?_⟩
  · unfold retrieveNeighbors
    dsimp only
    rw [hrefs]
    rfl
  · have hcandidates : (retrieveTopk unicode fromStr candidate.profile refs k).candidates =
        ranked ((familyRepresentatives (scoreRefs unicode fromStr features refs)).take k) := rfl
    rw [hcandidates, hrepresentatives, List.take_cons hk]
    rfl
  · exact (congrArg FamilyRef.familyId hrefEq).symm
  · exact (congrArg FamilyRef.version hrefEq).symm
  · have hequal := (total_computeDistance_eq_zero (sortedKeys_extractFeatures unicode _)
      (sortedKeys_extractFeatures unicode _)).mp hfirstZero
    have hcanonical : ref.canonical = utf8 found.canonical := congrArg FamilyRef.canonical hrefEq
    rw [hcanonical] at hequal
    exact hequal.symm
  · rw [← hid]
    exact hstored
  · have hfamily : own.familyId = stored.family := congrArg FamilyRef.familyId hownEq
    rw [← hfamily]
    exact hname

/-- The first promoted shape is its own nearest neighbor. -/
theorem retrieve_finds_published_orders :
    ∃ result first, retrieveNeighbors .ascii
        (readerOf [profileText (profileOfTree (.leaf (numbers ["a"])))])
        (fun id ↦ getSchema (jsonKnowing draftA) vaultA id) scanA
        (recordA promotedA "orders").profile 3 = .ok result ∧
      result.candidates.head? = some first ∧ first.distance = 0 := by
  have hdepth : ∀ doc ∈ (MergeTree.leaf (numbers ["a"])).values,
      nodeDepth doc ≤ (default : Limits).maxDepth := by
    simp only [MergeTree.values, Multiset.mem_singleton]
    rintro doc rfl
    decide
  have htext : ReadsText (readerOf [profileText (profileOfTree (.leaf (numbers ["a"])))])
      recursionLimit (profileText (profileOfTree (.leaf (numbers ["a"])))) := by
    rw [ReadsText, if_pos (nesting_profileText_lt hdepth)]
    simp [readerOf]
  rcases @retrieve_finds_published ordersSha256 .ascii _ _ promoterA promotedA bodyA "admin"
    (momentA ordersFamily) (recordA promotedA "orders") none (.leaf (numbers ["a"])) .empty vaultA
    vaultA vaultA 1 3 (fun _ ↦ vaultA) scanA rfl hdepth htext .refl plain_contextA
    publishRecord_draftA .refl (fun _ ↦ .refl) (fun _ ↦ .refl) versionsFit_vaultA scanned_vaultA
    (by decide) with ⟨result, first, hresult, hfirst, -, hzero, -⟩
  exact ⟨result, first, hresult, hfirst, hzero⟩

end Deblob.Retrieval
