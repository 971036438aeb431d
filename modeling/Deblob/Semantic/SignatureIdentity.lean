import Deblob.Semantic.BytesIdentity
import Deblob.Semantic.Features

/-!
# Signatures and semantic identity

The features of metadata depend on its normal form only, and so do its signature and the postings
it is found under. The codes of features and the bytes of a signature can be read back. All of this
holds as long as the lengths fit the 32 bits they are written in, and not beyond.
-/

namespace Deblob.Semantic.Signature

open Core Lib Canon
open Fingerprint (ascii)

def signatureVersion : String := "deblob-semantic-signature-v1"

/-- One feature of a signature, after its length, and its count. -/
def entryBytes (entry : Bytes × ℕ) : Bytes := lengthPrefixed entry.1 ++ bigEndian 4 entry.2

def SemanticSignature.toBytes (signature : SemanticSignature) : Bytes :=
  ascii signatureVersion ++ (0 :: signature.features.flatMap entryBytes)

/-! ## The features of a normal form -/

def normalFacets (semantics : NormalSemantics) : Multiset Facet :=
  Multiset.ofList (semantics.identifierNamespace.toList.map .identifierNamespace) +
    Multiset.ofList (semantics.unit.toList.map .unit) +
    semantics.enums.val.map (fun entry ↦ Facet.enumMeaning entry.2) +
    Multiset.ofList ((semantics.temporal.bind Temporal.kind).toList.map .temporal)

def normalFieldFeatures (semantics : NormalSemantics) : Multiset Feature :=
  Multiset.ofList (semantics.canonicalFieldId.map .field).toList +
    (normalFacets semantics).bind fun facet ↦
      Multiset.ofList (facetFeatures semantics.canonicalFieldId facet)

def normalFeatures (form : NormalForm) : Multiset Feature :=
  Multiset.ofList (form.eventType.map .event).toList +
    form.fields.val.bind fun field ↦ normalFieldFeatures field.2

theorem normalFieldFeatures_empty : normalFieldFeatures .empty = 0 := by
  simp [normalFieldFeatures, normalFacets, NormalSemantics.empty]

/-- A list without repetitions is the multiset of its finite set. -/
theorem val_toFinset_of_nodup {α : Type} [DecidableEq α] {items : List α} (hnodup : items.Nodup) :
    items.toFinset.val = (items : Multiset α) := by
  rw [List.toFinset_val, hnodup.dedup]

/-- Values of different codes are different values. -/
theorem nodup_normalMapping {mappings : List EnumMapping} (hvalid : ValidEnums mappings)
    (hbelow : ∀ mapping ∈ mappings, EnumValue.Below lengthLimit mapping.value) :
    (mappings.map normalMapping).Nodup := by
  have hcodes := List.pairwise_map.mp hvalid.2
  apply List.pairwise_map.mpr
  apply hcodes.imp_of_mem
  intro mapping other hmapping hother hne heq
  have hvalue : normalValue mapping.value = normalValue other.value := congrArg Prod.fst heq
  exact hne ((valueCode_eq_iff (hvalid.1 _ hmapping) (hvalid.1 _ hother) (hbelow _ hmapping)
    (hbelow _ hother)).mpr hvalue)

theorem kind_filter_temporal (temporal : Option Temporal) :
    (temporal.filter (· ≠ emptyTemporal)).bind Temporal.kind = temporal.bind Temporal.kind := by
  cases temporal with
  | none => rfl
  | some temporal =>
      by_cases hempty : temporal = emptyTemporal
      · subst hempty
        rfl
      · rw [Option.filter_some, if_pos (by simpa using hempty)]

section

variable {nfc : String → String} {metadata : SemanticMetadata} {semantics : FieldSemantics}

theorem facetsOf_eq (hvalid : ValidEnums (semantics.enumSemantics.getD []))
    (hbelow : FieldSemantics.Below lengthLimit semantics) :
    Multiset.ofList (facetsOf semantics) = normalFacets (normalSemantics semantics) := by
  have henums := val_toFinset_of_nodup
    (nodup_normalMapping hvalid fun mapping hmapping ↦ (hbelow.enums mapping hmapping).1)
  unfold facetsOf normalFacets normalSemantics
  dsimp only
  rw [henums, kind_filter_temporal, Multiset.map_coe, List.map_map]
  rfl

theorem featuresOfField_eq (hvalid : ValidEnums (semantics.enumSemantics.getD []))
    (hbelow : FieldSemantics.Below lengthLimit semantics) :
    Multiset.ofList (featuresOfField semantics) =
      normalFieldFeatures (normalSemantics semantics) := by
  unfold featuresOfField normalFieldFeatures
  rw [← facetsOf_eq hvalid hbelow, ← Multiset.coe_add, ← Multiset.coe_bind]
  rfl

/-- Fields that assert nothing have no features. -/
theorem flatMap_survivors {fields : List FieldEntry}
    (hempty : ∀ field ∈ fields, ¬ Survives field → featuresOfField field.semantics = []) :
    (fields.flatMap fun field ↦ featuresOfField field.semantics) =
      (fields.filter Survives).flatMap fun field ↦ featuresOfField field.semantics := by
  induction fields with
  | nil => rfl
  | cons field fields ih =>
      rw [List.forall_mem_cons] at hempty
      by_cases hsurvives : Survives field
      · simp [hsurvives, ih hempty.2]
      · simp [hsurvives, hempty.1 hsurvives, ih hempty.2]

theorem nodup_normalField (haccepted : Accepted nfc metadata) :
    ((metadata.fields.filter Survives).map (normalField nfc)).Nodup := by
  have hpaths : ((metadata.fields.filter Survives).map fun field ↦
      pathBytes (field.path.map (normalSegment nfc))).Nodup :=
    haccepted.paths.sublist (List.filter_sublist.map _)
  apply List.pairwise_map.mpr
  apply (List.pairwise_map.mp hpaths).imp
  intro field other hne heq
  have hpath : field.path.map (normalSegment nfc) = other.path.map (normalSegment nfc) :=
    congrArg Prod.fst heq
  exact hne (congrArg pathBytes hpath)

/-- The features of accepted metadata are those of its normal form. -/
theorem featuresOf_eq (haccepted : Accepted nfc metadata)
    (hbelow : SemanticMetadata.Below lengthLimit nfc metadata) :
    Multiset.ofList (featuresOf metadata) = normalFeatures (normalForm nfc metadata) := by
  have hfield : ∀ field ∈ metadata.fields, Multiset.ofList (featuresOfField field.semantics) =
      normalFieldFeatures (normalSemantics field.semantics) := fun field hmem ↦
    featuresOfField_eq (haccepted.enums field hmem) (hbelow.semantics field hmem)
  have hsilent : ∀ field ∈ metadata.fields, ¬ Survives field →
      featuresOfField field.semantics = [] := by
    intro field hmem hsilent
    have hfeatures := hfield field hmem
    rw [show normalSemantics field.semantics = .empty from not_not.mp hsilent,
      normalFieldFeatures_empty] at hfeatures
    exact (Multiset.coe_eq_zero _).mp hfeatures
  unfold featuresOf normalFeatures normalForm
  dsimp only
  rw [val_toFinset_of_nodup (nodup_normalField haccepted), ← Multiset.coe_add,
    flatMap_survivors hsilent, ← Multiset.coe_bind, ← Multiset.map_coe, Multiset.bind_map]
  congr 1
  apply Multiset.bind_congr
  intro field hsurvives
  exact hfield field (List.mem_of_mem_filter (Multiset.mem_coe.mp hsurvives))

end

/-! ## What a signature is made of -/

section

variable {left right : SemanticMetadata}

theorem event_mem_iff (metadata : SemanticMetadata) (event : String) :
    .event event ∈ featuresOf metadata ↔ metadata.eventType = some event := by
  simp [featuresOf, featuresOfField, facetFeatures]

theorem field_mem_iff (metadata : SemanticMetadata) (cfid : String) :
    .field cfid ∈ featuresOf metadata ↔
      cfid ∈ (semanticSignature metadata).canonicalFieldIds := by
  simp [featuresOf, featuresOfField, facetFeatures, semanticSignature]

theorem namespace_mem_iff (metadata : SemanticMetadata) (namespaceCode : String) :
    .standalone (.identifierNamespace namespaceCode) ∈ featuresOf metadata ↔
      namespaceCode ∈ (semanticSignature metadata).identifierNamespaces := by
  simp [featuresOf, featuresOfField, facetFeatures, facetsOf, semanticSignature]

/-- The event type and the ids of a signature are among its features. -/
theorem semanticSignature_eq
    (hfeatures : (semanticSignature left).features = (semanticSignature right).features)
    (hmem : ∀ feature, feature ∈ featuresOf left ↔ feature ∈ featuresOf right) :
    semanticSignature left = semanticSignature right := by
  have hevent : left.eventType = right.eventType := by
    apply Option.ext
    intro event
    rw [← event_mem_iff, ← event_mem_iff, hmem]
  have hcfids : (semanticSignature left).canonicalFieldIds =
      (semanticSignature right).canonicalFieldIds := by
    ext cfid
    rw [← field_mem_iff, ← field_mem_iff, hmem]
  have hnamespaces : (semanticSignature left).identifierNamespaces =
      (semanticSignature right).identifierNamespaces := by
    ext namespaceCode
    rw [← namespace_mem_iff, ← namespace_mem_iff, hmem]
  exact SemanticSignature.mk.injEq .. ▸ ⟨hfeatures, hevent, hcfids, hnamespaces⟩

/-- Metadata of one normal form have one signature. -/
theorem semanticSignature_eq_of_normalForm {nfc : String → String} (hleft : Accepted nfc left)
    (hright : Accepted nfc right) (hleftBelow : SemanticMetadata.Below lengthLimit nfc left)
    (hrightBelow : SemanticMetadata.Below lengthLimit nfc right)
    (hform : normalForm nfc left = normalForm nfc right) :
    semanticSignature left = semanticSignature right := by
  have hperm : (featuresOf left).Perm (featuresOf right) := by
    apply Multiset.coe_eq_coe.mp
    calc Multiset.ofList (featuresOf left) = normalFeatures (normalForm nfc left) :=
          featuresOf_eq hleft hleftBelow
      _ = normalFeatures (normalForm nfc right) := by rw [hform]
      _ = Multiset.ofList (featuresOf right) := (featuresOf_eq hright hrightBelow).symm
  apply semanticSignature_eq
  · unfold semanticSignature
    dsimp only
    rw [occurrences_eq, occurrences_eq]
    exact foldl_bump_perm (hperm.map _)
  · exact fun feature ↦ hperm.mem_iff

/-! ## The bytes of a signature -/

/-- Every text of the metadata's features is shorter than the limit. -/
def FeaturesBelow (limit : ℕ) (metadata : SemanticMetadata) : Prop :=
  ∀ feature ∈ featuresOf metadata, feature.Below limit

/-- The code of a feature that fits, and a count. -/
def EntryOfFeature (entry : Bytes × ℕ) : Prop :=
  (∃ feature, Feature.Below lengthLimit feature ∧ feature.encode = entry.1) ∧ entry.2 < 256 ^ 4

/-- The length in front is skipped: it has four bytes, and the feature is read back without it. -/
theorem entryBytes_readsBackOn : ReadsBackOn EntryOfFeature entryBytes := by
  have hentry := encode_readsBackOn.codes.append (bigEndian_readsBackOn 4)
  intro entry other hvalue hother rest left heq
  unfold entryBytes lengthPrefixed at heq
  rw [List.append_assoc, List.append_assoc, List.append_assoc, List.append_assoc] at heq
  rcases List.append_inj heq (by simp) with ⟨-, htail⟩
  apply hentry entry other hvalue hother
  simpa only [id_eq, List.append_assoc] using htail

theorem entryBytes_ne_nil (entry : Bytes × ℕ) : entryBytes entry ≠ [] := by
  intro hnil
  have hlength := congrArg List.length hnil
  simp [entryBytes, lengthPrefixed] at hlength

theorem entries_ofFeatures (hbelow : FeaturesBelow lengthLimit left) :
    ∀ entry ∈ (semanticSignature left).features, EntryOfFeature entry := by
  intro entry hentry
  constructor
  · have hkey : entry.1 ∈ (semanticSignature left).featureKeys := List.mem_map_of_mem hentry
    rw [mem_featureKeys, occurrences_eq] at hkey
    rcases List.mem_map.mp hkey with ⟨feature, hfeature, hcode⟩
    exact ⟨feature, hbelow feature hfeature, hcode⟩
  · exact lt_of_le_of_lt (counts_foldl_bump _ entry hentry).2 (by decide)

/-- A feature of one of two signatures with the same features is one of the other. -/
theorem featuresOf_subset (hleft : FeaturesBelow lengthLimit left)
    (hright : FeaturesBelow lengthLimit right)
    (hfeatures : (semanticSignature left).features = (semanticSignature right).features)
    {feature : Feature} (hfeature : feature ∈ featuresOf left) : feature ∈ featuresOf right := by
  have hcode : feature.encode ∈ occurrences right := by
    rw [← mem_featureKeys, SemanticSignature.featureKeys, ← hfeatures]
    apply mem_featureKeys.mpr
    rw [occurrences_eq]
    exact List.mem_map_of_mem hfeature
  rw [occurrences_eq] at hcode
  rcases List.mem_map.mp hcode with ⟨other, hother, hsame⟩
  rwa [← encode_readsBackOn.inj (hright other hother) (hleft feature hfeature) hsame]

theorem toBytes_inj (hleft : FeaturesBelow lengthLimit left)
    (hright : FeaturesBelow lengthLimit right)
    (hbytes : (semanticSignature left).toBytes = (semanticSignature right).toBytes) :
    semanticSignature left = semanticSignature right := by
  have hfeatures : (semanticSignature left).features = (semanticSignature right).features := by
    have hentries := (List.cons.inj (List.append_cancel_left hbytes)).2
    exact entryBytes_readsBackOn.stream entryBytes_ne_nil (entries_ofFeatures hleft)
      (entries_ofFeatures hright) hentries
  exact semanticSignature_eq hfeatures fun feature ↦
    ⟨featuresOf_subset hleft hright hfeatures, featuresOf_subset hright hleft hfeatures.symm⟩

end

/-! ## The limit -/

/-- Signatures are determined by the canonical bytes and their encoding is injective, among
metadata and features whose lengths lie below the limit. -/
structure SignatureFaithful (nfc : String → String) (limit : ℕ) : Prop where
  determined : ∀ left right bytes, SemanticMetadata.Below limit nfc left →
    SemanticMetadata.Below limit nfc right → canonicalSemanticBytes nfc left = .ok bytes →
    canonicalSemanticBytes nfc right = .ok bytes →
    semanticSignature left = semanticSignature right
  features : ∀ feature other : Feature, feature.Below limit → other.Below limit →
    feature.encode = other.encode → feature = other
  signatures : ∀ left right, FeaturesBelow limit left → FeaturesBelow limit right →
    (semanticSignature left).toBytes = (semanticSignature right).toBytes →
    semanticSignature left = semanticSignature right

theorem Facet.Below.mono {limit larger : ℕ} {facet : Facet} (hbelow : facet.Below limit)
    (hle : limit ≤ larger) : facet.Below larger := by
  cases facet with
  | identifierNamespace namespaceCode => exact Nat.lt_of_lt_of_le hbelow hle
  | unit unit => exact Nat.lt_of_lt_of_le hbelow hle
  | enumMeaning meaning =>
      exact ⟨Nat.lt_of_lt_of_le hbelow.1 hle, Nat.lt_of_lt_of_le hbelow.2 hle⟩
  | temporal kind => trivial

theorem Feature.Below.mono {limit larger : ℕ} {feature : Feature} (hbelow : feature.Below limit)
    (hle : limit ≤ larger) : feature.Below larger := by
  cases feature with
  | event eventType => exact Nat.lt_of_lt_of_le hbelow hle
  | field cfid => exact Nat.lt_of_lt_of_le hbelow hle
  | bound cfid facet => exact ⟨Nat.lt_of_lt_of_le hbelow.1 hle, hbelow.2.mono hle⟩
  | standalone facet => exact Facet.Below.mono hbelow hle

/-- As many NUL characters as a length of 32 bits can just not say. -/
def longCode : String := asciiText (List.replicate lengthLimit 0)

/-- A long field id with an empty namespace, and the other way round. -/
def longCfid : Feature := .bound longCode (.identifierNamespace "")

def longNamespace : Feature := .bound "" (.identifierNamespace longCode)

theorem utf8_longCode : utf8 longCode = List.replicate lengthLimit 0 := by
  apply utf8_asciiText
  intro byte hbyte
  rw [List.eq_of_mem_replicate hbyte]
  decide

/-- The length of the long text is written as the one of the empty text. -/
theorem encode_longCfid : longCfid.encode = longNamespace.encode := by
  have hlong : lpStr longCode = List.replicate 4 0 ++ List.replicate lengthLimit 0 := by
    have hlength : bigEndian 4 lengthLimit = List.replicate 4 0 := by decide
    rw [lpStr, lengthPrefixed, utf8_longCode, List.length_replicate, hlength]
  have hempty : lpStr "" = List.replicate 4 0 := by decide
  have hpayload : lpStr longCode ++ lpStr "" = lpStr "" ++ lpStr longCode := by
    rw [hlong, hempty]
    simp only [List.replicate_append_replicate, Nat.add_comm, Nat.add_left_comm]
  exact congrArg (FeatureTag.fieldIdns.toByte :: ·) hpayload

theorem longCfid_below {limit : ℕ} (hlimit : lengthLimit < limit) :
    longCfid.Below limit ∧ longNamespace.Below limit := by
  have hlong : TextBelow limit longCode := by
    unfold TextBelow
    rw [utf8_longCode, List.length_replicate]
    exact hlimit
  have hempty : TextBelow limit "" := (Nat.zero_le lengthLimit).trans_lt hlimit
  exact ⟨⟨hlong, hempty⟩, hempty, hlong⟩

theorem longCfid_ne : longCfid ≠ longNamespace := by
  intro heq
  have hcode : longCode = "" := (Feature.bound.inj heq).1
  have hlength := congrArg List.length utf8_longCode
  rw [hcode, List.length_replicate] at hlength
  have hzero : (utf8 "").length = 0 := rfl
  rw [hzero] at hlength
  exact absurd hlength (by decide)

theorem semanticSignature_longEventType_ne :
    semanticSignature longEventType ≠ semanticSignature longUnits :=
  fun heq ↦ eventType_longEventType_ne (congrArg SemanticSignature.eventType heq)

theorem encode_inj_iff (limit : ℕ) :
    (∀ feature other : Feature, feature.Below limit → other.Below limit →
      feature.encode = other.encode → feature = other) ↔ limit ≤ 2 ^ 32 := by
  constructor
  · intro hinj
    by_contra hlimit
    rcases longCfid_below (not_le.mp hlimit) with ⟨hcfid, hnamespace⟩
    exact longCfid_ne (hinj _ _ hcfid hnamespace encode_longCfid)
  · intro hlimit feature other hfeature hother
    exact encode_readsBackOn.inj (hfeature.mono hlimit) (hother.mono hlimit)

end Deblob.Semantic.Signature
