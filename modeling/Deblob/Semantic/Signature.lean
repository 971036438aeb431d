import Deblob.Fingerprint.Bucket
import Deblob.Lib.SortedMap
import Deblob.Semantic.Types
import Mathlib.Algebra.BigOperators.Group.Finset.Basic
import Mathlib.Data.Nat.Log

/-!
# Semantic signatures

The signature of metadata is a multiset of features that forgets where the fields are. Each feature
is a byte string that starts with the tag of its class. Two signatures are compared by a weighted
Jaccard similarity and by a strength class, both under a multiplier that makes features rarer in the
corpus count for more.
-/

namespace Deblob.Semantic.Signature

open Core Lib
open Umbrella (UnitSystem)

def maxFeatureCount : ℕ := 4

/-! ## Features -/

inductive FeatureTag where
  | event
  | field
  | fieldIdns
  | fieldUnit
  | idns
  | unit
  | fieldEnum
  | enumMeaning
  | fieldTemporal
  | temporal
deriving DecidableEq

namespace FeatureTag

/-- All tags in the order of their bytes. -/
def all : List FeatureTag :=
  [event, field, fieldIdns, fieldUnit, idns, unit, fieldEnum, enumMeaning, fieldTemporal, temporal]

def toByte : FeatureTag → UInt8
  | event => 0
  | field => 1
  | fieldIdns => 2
  | fieldUnit => 3
  | idns => 4
  | unit => 5
  | fieldEnum => 6
  | enumMeaning => 7
  | fieldTemporal => 8
  | temporal => 9

def weight : FeatureTag → ℕ
  | event => 24
  | field => 12
  | fieldIdns => 10
  | fieldUnit => 8
  | idns => 6
  | unit => 4
  | fieldEnum => 4
  | enumMeaning => 3
  | fieldTemporal => 3
  | temporal => 1

/-- No feature starts with any other byte. -/
def fromByte (byte : UInt8) : Option FeatureTag := all.find? (·.toByte = byte)

def className : FeatureTag → String
  | event => "canonical_event_type_id"
  | field => "canonical_field_id"
  | fieldIdns => "field_identifier_namespace"
  | fieldUnit => "field_unit"
  | idns => "identifier_namespace"
  | unit => "unit"
  | fieldEnum => "field_enum_meaning"
  | enumMeaning => "enum_meaning"
  | fieldTemporal => "field_temporal"
  | temporal => "temporal"

@[simp]
theorem fromByte_toByte (tag : FeatureTag) : fromByte tag.toByte = some tag := by
  cases tag <;> rfl

end FeatureTag

def unitSystemByte : UnitSystem → UInt8
  | .ucum => 0
  | .iso4217 => 1
  | .registered => 2

def temporalKindByte : TemporalKind → UInt8
  | .instant => 0
  | .localDatetime => 1
  | .date => 2
  | .duration => 3

def encodeEvent (eventType : String) : Bytes := FeatureTag.event.toByte :: lpStr eventType

def encodeField (cfid : String) : Bytes := FeatureTag.field.toByte :: lpStr cfid

def encodeFieldIdns (cfid namespaceCode : String) : Bytes :=
  FeatureTag.fieldIdns.toByte :: (lpStr cfid ++ lpStr namespaceCode)

def encodeFieldUnit (cfid : String) (unit : Umbrella.Unit) : Bytes :=
  FeatureTag.fieldUnit.toByte :: (lpStr cfid ++ unitSystemByte unit.system :: lpStr unit.code)

def encodeIdns (namespaceCode : String) : Bytes := FeatureTag.idns.toByte :: lpStr namespaceCode

def encodeUnit (unit : Umbrella.Unit) : Bytes :=
  FeatureTag.unit.toByte :: unitSystemByte unit.system :: lpStr unit.code

def encodeFieldEnum (cfid vocabulary code : String) : Bytes :=
  FeatureTag.fieldEnum.toByte :: (lpStr cfid ++ (lpStr vocabulary ++ lpStr code))

def encodeEnumMeaning (vocabulary code : String) : Bytes :=
  FeatureTag.enumMeaning.toByte :: (lpStr vocabulary ++ lpStr code)

def encodeFieldTemporal (cfid : String) (kind : TemporalKind) : Bytes :=
  FeatureTag.fieldTemporal.toByte :: (lpStr cfid ++ [temporalKindByte kind])

def encodeTemporal (kind : TemporalKind) : Bytes :=
  [FeatureTag.temporal.toByte, temporalKindByte kind]

/-- Count one more occurrence of a feature, up to the cap. -/
def bump (features : List (Bytes × ℕ)) (key : Bytes) : List (Bytes × ℕ) :=
  insertWith key (min 1 maxFeatureCount) (fun count ↦ min (count + 1) maxFeatureCount) features

/-! ## Extraction -/

structure SemanticSignature where
  features : List (Bytes × ℕ)
  eventType : Option String
  canonicalFieldIds : Finset String
  identifierNamespaces : Finset String

/-- The features of an attribute: the one bound to the field id, if there is one, and the other. -/
def withField (cfid : Option String) (bound : String → Bytes) (standalone : Bytes) : List Bytes :=
  (cfid.map bound).toList ++ [standalone]

/-- The features of one field, in the order they are met. -/
def fieldFeatures (semantics : FieldSemantics) : List Bytes :=
  let cfid := semantics.canonicalFieldId
  (cfid.map encodeField).toList ++
    (semantics.identifierNamespace.toList.flatMap fun namespaceCode ↦
      withField cfid (encodeFieldIdns · namespaceCode) (encodeIdns namespaceCode)) ++
    (semantics.unit.toList.flatMap fun unit ↦
      withField cfid (encodeFieldUnit · unit) (encodeUnit unit)) ++
    ((semantics.enumSemantics.getD []).flatMap fun mapping ↦
      withField cfid (encodeFieldEnum · mapping.meaning.vocabulary mapping.meaning.code)
        (encodeEnumMeaning mapping.meaning.vocabulary mapping.meaning.code)) ++
    ((semantics.temporal.bind Temporal.kind).toList.flatMap fun kind ↦
      withField cfid (encodeFieldTemporal · kind) (encodeTemporal kind))

/-- Every occurrence of a feature in the metadata. -/
def occurrences (metadata : SemanticMetadata) : List Bytes :=
  (metadata.eventType.map encodeEvent).toList ++
    metadata.fields.flatMap fun entry ↦ fieldFeatures entry.semantics

def semanticSignature (metadata : SemanticMetadata) : SemanticSignature where
  features := (occurrences metadata).foldl bump []
  eventType := metadata.eventType
  canonicalFieldIds :=
    (metadata.fields.filterMap fun entry ↦ entry.semantics.canonicalFieldId).toFinset
  identifierNamespaces :=
    (metadata.fields.filterMap fun entry ↦ entry.semantics.identifierNamespace).toFinset

/-- The feature keys in their lexicographic order. -/
def SemanticSignature.featureKeys (signature : SemanticSignature) : List Bytes :=
  signature.features.map Prod.fst

def hexEncode (bytes : Bytes) : String := String.ofList (Fingerprint.hexChars bytes)

def SemanticSignature.featureKeysHex (signature : SemanticSignature) : List String :=
  signature.featureKeys.map hexEncode

/-! ## Similarity -/

structure Score where
  numerator : ℕ
  denominator : ℕ
deriving DecidableEq

/-- Scores are compared as fractions, by cross-multiplication. -/
def Score.cmpRank (score other : Score) : Ordering :=
  compare (score.numerator * other.denominator) (other.numerator * score.denominator)

def idfMax : ℕ := 16
def anchorIdfMin : ℕ := 2
def idfMinPopulation : ℕ := 32

/-- The binary logarithm of `n / df` rounded down, at most `idfMax`, and `idfMax` without data. -/
def idfMultiplier (n df : ℕ) : ℕ :=
  if n < idfMinPopulation then idfMax
  else if df = 0 then idfMax
  else if n / df < 2 then 0
  else min (Nat.log 2 (n / df)) idfMax

/-- How often a signature counts a feature. -/
def SemanticSignature.count (signature : SemanticSignature) (key : Bytes) : ℕ :=
  (getEntry signature.features key).getD 0

def tagOf (key : Bytes) : Option FeatureTag := key.head?.bind FeatureTag.fromByte

/-- The weight of the class of a feature. -/
def classWeight (key : Bytes) : ℕ := ((tagOf key).map FeatureTag.weight).getD 0

/-- The keys of either signature. -/
def unionKeys (a b : SemanticSignature) : Finset Bytes :=
  a.featureKeys.toFinset ∪ b.featureKeys.toFinset

def similarityWeighted (a b : SemanticSignature) (idfMult : Bytes → ℕ) : Score where
  numerator :=
    ∑ key ∈ unionKeys a b, classWeight key * idfMult key * min (a.count key) (b.count key)
  denominator :=
    ∑ key ∈ unionKeys a b, classWeight key * idfMult key * max (a.count key) (b.count key)

/-! ## Strength -/

inductive Strength where
  | insufficient
  | weak
  | medium
  | strong
deriving DecidableEq

def Strength.rank : Strength → ℕ
  | insufficient => 0
  | weak => 1
  | medium => 2
  | strong => 3

instance : LinearOrder Strength := LinearOrder.lift' Strength.rank fun left right hrank ↦ by
  cases left <;> cases right <;> first | rfl | cases hrank

def genericCfids : List String :=
  ["cfid_timestamp", "cfid_name", "cfid_count", "cfid_value", "cfid_status"]

/-- A field id is an anchor unless it is generic or too common in the corpus. -/
def IsAnchorCfid (idfMult : Bytes → ℕ) (cfid : String) : Prop :=
  cfid ∉ genericCfids ∧ anchorIdfMin ≤ idfMult (encodeField cfid)

instance (idfMult : Bytes → ℕ) : DecidablePred (IsAnchorCfid idfMult) := fun _ ↦
  inferInstanceAs (Decidable (_ ∧ _))

def sharedAnchorFieldCount (a b : SemanticSignature) (idfMult : Bytes → ℕ) : ℕ :=
  ((a.canonicalFieldIds ∩ b.canonicalFieldIds).filter (IsAnchorCfid idfMult)).card

def HasAnchorWeighted (signature : SemanticSignature) (idfMult : Bytes → ℕ) : Prop :=
  signature.eventType.isSome ∨
    (∃ cfid ∈ signature.canonicalFieldIds, IsAnchorCfid idfMult cfid) ∨
    signature.identifierNamespaces.Nonempty

instance (signature : SemanticSignature) (idfMult : Bytes → ℕ) :
    Decidable (HasAnchorWeighted signature idfMult) :=
  inferInstanceAs (Decidable (_ ∨ _))

/-- The multiplier is saturated: only the stop list keeps a field id from being an anchor. -/
def HasAnchor (signature : SemanticSignature) : Prop :=
  HasAnchorWeighted signature fun _ ↦ 2 ^ 64 - 1

instance (signature : SemanticSignature) : Decidable (HasAnchor signature) :=
  inferInstanceAs (Decidable (HasAnchorWeighted _ _))

/-- The classes of the features both signatures count. -/
def overlappingTags (a b : SemanticSignature) : Finset FeatureTag :=
  ((a.features.filter fun (key, countA) ↦ countA ≠ 0 ∧ 0 < b.count key).filterMap
    fun (key, _) ↦ tagOf key).toFinset

/-- Both metadata name an event type and it is the same one. -/
def SameEvent (a b : SemanticSignature) : Prop := a.eventType.isSome ∧ a.eventType = b.eventType

instance (a b : SemanticSignature) : Decidable (SameEvent a b) :=
  inferInstanceAs (Decidable (_ ∧ _))

def DifferingEventTypes (a b : SemanticSignature) : Prop :=
  a.eventType.isSome ∧ b.eventType.isSome ∧ a.eventType ≠ b.eventType

instance (a b : SemanticSignature) : Decidable (DifferingEventTypes a b) :=
  inferInstanceAs (Decidable (_ ∧ _ ∧ _))

/-- The class of a match before the cap for differing event types. -/
def computedStrength (a b : SemanticSignature) (idfMult : Bytes → ℕ) : Strength :=
  let sharedFieldCount := sharedAnchorFieldCount a b idfMult
  let minFields := min (a.canonicalFieldIds.filter (IsAnchorCfid idfMult)).card
    (b.canonicalFieldIds.filter (IsAnchorCfid idfMult)).card
  let overlap := overlappingTags a b
  if SameEvent a b ∨
      (2 ≤ sharedFieldCount ∧ 0 < minFields ∧ minFields ≤ sharedFieldCount * 2) then
    .strong
  else if 1 ≤ sharedFieldCount ∨
      ((a.identifierNamespaces ∩ b.identifierNamespaces).Nonempty ∧
        ∃ tag ∈ overlap, tag ≠ .idns) then
    .medium
  else if .unit ∈ overlap ∨ .temporal ∈ overlap ∨ .enumMeaning ∈ overlap then .weak
  else .insufficient

def strengthWeighted (a b : SemanticSignature) (idfMult : Bytes → ℕ) : Strength :=
  if ¬ HasAnchor a ∨ ¬ HasAnchor b then .insufficient
  else if DifferingEventTypes a b then min (computedStrength a b idfMult) .medium
  else computedStrength a b idfMult

def matchedFeatureClasses (a b : SemanticSignature) : List String :=
  (FeatureTag.all.filter (· ∈ overlappingTags a b)).map FeatureTag.className

def sharedAnchorCountWeighted (a b : SemanticSignature) (idfMult : Bytes → ℕ) : ℕ :=
  (if SameEvent a b then 1 else 0) + sharedAnchorFieldCount a b idfMult +
    (a.identifierNamespaces ∩ b.identifierNamespaces).card

/-! ## What a match shares -/

theorem mem_keys_foldl_bump {keys : List Bytes} {features : List (Bytes × ℕ)} {key : Bytes} :
    key ∈ (keys.foldl bump features).map Prod.fst ↔ key ∈ keys ∨ key ∈ features.map Prod.fst := by
  induction keys generalizing features with
  | nil => simp
  | cons first keys ih =>
      rw [List.foldl_cons, ih, bump, mem_keys_insertWith, List.mem_cons]
      tauto

/-- A signature counts exactly the features that occur. -/
@[simp]
theorem mem_featureKeys {metadata : SemanticMetadata} {key : Bytes} :
    key ∈ (semanticSignature metadata).featureKeys ↔ key ∈ occurrences metadata := by
  simp [SemanticSignature.featureKeys, semanticSignature, mem_keys_foldl_bump]

theorem mem_featureKeys_of_count {signature : SemanticSignature} {key : Bytes}
    (hcount : 0 < signature.count key) : key ∈ signature.featureKeys := by
  unfold SemanticSignature.count at hcount
  cases hlookup : getEntry signature.features key with
  | none => simp [hlookup] at hcount
  | some count => exact List.mem_map_of_mem (mem_of_getEntry hlookup)

theorem encodeEvent_mem {metadata : SemanticMetadata} {event : String}
    (hevent : (semanticSignature metadata).eventType = some event) :
    encodeEvent event ∈ (semanticSignature metadata).featureKeys := by
  have htype : metadata.eventType = some event := hevent
  simp [occurrences, htype]

theorem encodeField_mem {metadata : SemanticMetadata} {cfid : String}
    (hcfid : cfid ∈ (semanticSignature metadata).canonicalFieldIds) :
    encodeField cfid ∈ (semanticSignature metadata).featureKeys := by
  rcases List.mem_filterMap.mp (List.mem_toFinset.mp hcfid) with ⟨entry, hentry, hfield⟩
  rw [mem_featureKeys, occurrences, List.mem_append, List.mem_flatMap]
  exact .inr ⟨entry, hentry, by simp [fieldFeatures, hfield]⟩

theorem encodeIdns_mem {metadata : SemanticMetadata} {namespaceCode : String}
    (hnamespace : namespaceCode ∈ (semanticSignature metadata).identifierNamespaces) :
    encodeIdns namespaceCode ∈ (semanticSignature metadata).featureKeys := by
  rcases List.mem_filterMap.mp (List.mem_toFinset.mp hnamespace) with ⟨entry, hentry, hfield⟩
  rw [mem_featureKeys, occurrences, List.mem_append, List.mem_flatMap]
  exact .inr ⟨entry, hentry, by simp [fieldFeatures, hfield, withField]⟩

/-- A feature class overlaps because a feature does. -/
theorem shares_of_overlap {a b : SemanticSignature} {tag : FeatureTag}
    (htag : tag ∈ overlappingTags a b) : ∃ key ∈ a.featureKeys, key ∈ b.featureKeys := by
  rcases List.mem_filterMap.mp (List.mem_toFinset.mp htag) with ⟨⟨key, countA⟩, hentry, -⟩
  rcases List.mem_filter.mp hentry with ⟨hmem, hcounts⟩
  have hcount : 0 < b.count key := (of_decide_eq_true hcounts).2
  exact ⟨key, List.mem_map_of_mem hmem, mem_featureKeys_of_count hcount⟩

section

variable {subject other : SemanticMetadata} {idfMult : Bytes → ℕ}

/-- Every match shares a feature, whichever rule it comes from. -/
theorem shares_of_strength
    (hstrength : strengthWeighted (semanticSignature subject) (semanticSignature other) idfMult ≠
      .insufficient) :
    ∃ key ∈ (semanticSignature subject).featureKeys,
      key ∈ (semanticSignature other).featureKeys := by
  by_contra hnone
  push Not at hnone
  have hevent : ¬ SameEvent (semanticSignature subject) (semanticSignature other) := by
    intro hsame
    rcases Option.isSome_iff_exists.mp hsame.1 with ⟨event, hsubject⟩
    exact hnone _ (encodeEvent_mem hsubject) (encodeEvent_mem (hsame.2 ▸ hsubject))
  have hfields : sharedAnchorFieldCount (semanticSignature subject) (semanticSignature other)
      idfMult = 0 := by
    apply Finset.card_eq_zero.mpr
    apply Finset.filter_eq_empty_iff.mpr
    intro cfid hcfid
    rcases Finset.mem_inter.mp hcfid with ⟨hsubject, hother⟩
    exact absurd (encodeField_mem hother) (hnone _ (encodeField_mem hsubject))
  have hnamespaces : ¬ ((semanticSignature subject).identifierNamespaces ∩
      (semanticSignature other).identifierNamespaces).Nonempty := by
    rintro ⟨namespaceCode, hmem⟩
    rcases Finset.mem_inter.mp hmem with ⟨hsubject, hother⟩
    exact hnone _ (encodeIdns_mem hsubject) (encodeIdns_mem hother)
  have hoverlap (tag : FeatureTag) :
      tag ∉ overlappingTags (semanticSignature subject) (semanticSignature other) := by
    intro htag
    rcases shares_of_overlap htag with ⟨key, hsubject, hother⟩
    exact hnone key hsubject hother
  have hcomputed : computedStrength (semanticSignature subject) (semanticSignature other) idfMult =
      .insufficient := by
    simp [computedStrength, hevent, hfields, hnamespaces, hoverlap]
  apply hstrength
  unfold strengthWeighted
  rw [hcomputed]
  split_ifs <;> rfl

theorem strengthWeighted_of_not_hasAnchor {a b : SemanticSignature} (hanchor : ¬ HasAnchor a) :
    strengthWeighted a b idfMult = .insufficient := by
  rw [strengthWeighted, if_pos (.inl hanchor)]

end

section

variable {a b : SemanticSignature} {idfMult other : Bytes → ℕ}

theorem filter_isAnchorCfid_congr {cfids : Finset String}
    (hagree : ∀ cfid ∈ cfids, idfMult (encodeField cfid) = other (encodeField cfid)) :
    cfids.filter (IsAnchorCfid idfMult) = cfids.filter (IsAnchorCfid other) := by
  apply Finset.filter_congr
  intro cfid hcfid
  rw [IsAnchorCfid, IsAnchorCfid, hagree cfid hcfid]

theorem sharedAnchorFieldCount_congr
    (hagree : ∀ cfid ∈ a.canonicalFieldIds, idfMult (encodeField cfid) = other (encodeField cfid)) :
    sharedAnchorFieldCount a b idfMult = sharedAnchorFieldCount a b other := by
  unfold sharedAnchorFieldCount
  rw [filter_isAnchorCfid_congr fun cfid hcfid ↦ hagree cfid (Finset.mem_inter.mp hcfid).1]

/-- The strength depends on the multipliers of the field ids of the two signatures only. -/
theorem strengthWeighted_congr
    (hleft : ∀ cfid ∈ a.canonicalFieldIds, idfMult (encodeField cfid) = other (encodeField cfid))
    (hright : ∀ cfid ∈ b.canonicalFieldIds, idfMult (encodeField cfid) = other (encodeField cfid)) :
    strengthWeighted a b idfMult = strengthWeighted a b other := by
  unfold strengthWeighted computedStrength
  rw [sharedAnchorFieldCount_congr hleft, filter_isAnchorCfid_congr hleft,
    filter_isAnchorCfid_congr hright]

theorem sharedAnchorCountWeighted_congr
    (hleft : ∀ cfid ∈ a.canonicalFieldIds, idfMult (encodeField cfid) = other (encodeField cfid)) :
    sharedAnchorCountWeighted a b idfMult = sharedAnchorCountWeighted a b other := by
  unfold sharedAnchorCountWeighted
  rw [sharedAnchorFieldCount_congr hleft]

/-- The similarity depends on the multipliers of the features of the two signatures only. -/
theorem similarityWeighted_congr
    (hagree : ∀ key ∈ unionKeys a b, idfMult key = other key) :
    similarityWeighted a b idfMult = similarityWeighted a b other := by
  unfold similarityWeighted
  congr 1
  · exact Finset.sum_congr rfl fun key hkey ↦ by rw [hagree key hkey]
  · exact Finset.sum_congr rfl fun key hkey ↦ by rw [hagree key hkey]

end

/-! ## Hex keys -/

theorem hexChars_injective : Function.Injective Fingerprint.hexChars := by
  have hbyte (left right : UInt8)
      (hhigh : Nat.digitChar (left.toNat / 16) = Nat.digitChar (right.toNat / 16))
      (hlow : Nat.digitChar (left.toNat % 16) = Nat.digitChar (right.toNat % 16)) :
      left = right := by
    have hdigit : ∀ digit < 16, ∀ other < 16,
        Nat.digitChar digit = Nat.digitChar other → digit = other := by decide
    have hleft := left.toNat_lt
    have hright := right.toNat_lt
    have hdiv := hdigit _ (by omega) _ (by omega) hhigh
    have hmod := hdigit _ (by omega) _ (by omega) hlow
    apply UInt8.toNat_inj.mp
    omega
  intro left
  induction left with
  | nil =>
      intro right heq
      cases right with
      | nil => rfl
      | cons byte bytes => cases heq
  | cons byte bytes ih =>
      intro right heq
      cases right with
      | nil => cases heq
      | cons other others =>
          rcases List.cons.inj heq with ⟨hhigh, htail⟩
          rcases List.cons.inj htail with ⟨hlow, hrest⟩
          rw [hbyte byte other hhigh hlow, ih hrest]

theorem hexEncode_injective : Function.Injective hexEncode := by
  intro left right heq
  exact hexChars_injective (String.ofList_injective heq)

@[simp]
theorem hexEncode_mem_featureKeysHex {signature : SemanticSignature} {key : Bytes} :
    hexEncode key ∈ signature.featureKeysHex ↔ key ∈ signature.featureKeys :=
  List.mem_map_of_injective hexEncode_injective

end Deblob.Semantic.Signature
