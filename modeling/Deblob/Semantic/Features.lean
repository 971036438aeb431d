import Deblob.Semantic.NormalForm
import Deblob.Semantic.StrengthOrder

/-!
# Features and their codes

A feature names an event type, a field id, or an attribute, alone or bound to a field id. Its code
starts with the tag of its class, and every text in it with its length, so that codes can be told
apart as long as the lengths fit. A signature counts the codes of the features of its metadata,
whatever their order.
-/

namespace Deblob.Semantic.Signature

open Core Lib Canon

/-- An attribute as a signature sees it; of an enum value only the meaning counts. -/
inductive Facet where
  | identifierNamespace (namespaceCode : String)
  | unit (unit : Umbrella.Unit)
  | enumMeaning (meaning : MeaningCode)
  | temporal (kind : TemporalKind)
deriving DecidableEq

inductive Feature where
  | event (eventType : String)
  | field (cfid : String)
  | bound (cfid : String) (facet : Facet)
  | standalone (facet : Facet)
deriving DecidableEq

def Feature.encode : Feature → Bytes
  | .event eventType => encodeEvent eventType
  | .field cfid => encodeField cfid
  | .bound cfid (.identifierNamespace namespaceCode) => encodeFieldIdns cfid namespaceCode
  | .bound cfid (.unit unit) => encodeFieldUnit cfid unit
  | .bound cfid (.enumMeaning meaning) => encodeFieldEnum cfid meaning.vocabulary meaning.code
  | .bound cfid (.temporal kind) => encodeFieldTemporal cfid kind
  | .standalone (.identifierNamespace namespaceCode) => encodeIdns namespaceCode
  | .standalone (.unit unit) => encodeUnit unit
  | .standalone (.enumMeaning meaning) => encodeEnumMeaning meaning.vocabulary meaning.code
  | .standalone (.temporal kind) => encodeTemporal kind

/-! ## The features of metadata -/

def facetsOf (semantics : FieldSemantics) : List Facet :=
  semantics.identifierNamespace.toList.map .identifierNamespace ++
    semantics.unit.toList.map .unit ++
    (semantics.enumSemantics.getD []).map (fun mapping ↦ .enumMeaning mapping.meaning) ++
    (semantics.temporal.bind Temporal.kind).toList.map .temporal

/-- What a facet adds to a signature. -/
def facetFeatures (cfid : Option String) (facet : Facet) : List Feature :=
  (cfid.map fun cfid ↦ .bound cfid facet).toList ++ [.standalone facet]

def featuresOfField (semantics : FieldSemantics) : List Feature :=
  (semantics.canonicalFieldId.map .field).toList ++
    (facetsOf semantics).flatMap (facetFeatures semantics.canonicalFieldId)

def featuresOf (metadata : SemanticMetadata) : List Feature :=
  (metadata.eventType.map .event).toList ++
    metadata.fields.flatMap fun entry ↦ featuresOfField entry.semantics

theorem encode_facetFeatures (cfid : Option String) (facet : Facet) :
    (facetFeatures cfid facet).map Feature.encode =
      withField cfid (fun cfid ↦ (Feature.bound cfid facet).encode)
        (Feature.standalone facet).encode := by
  cases cfid <;> rfl

theorem encode_featuresOfField (semantics : FieldSemantics) :
    (featuresOfField semantics).map Feature.encode = fieldFeatures semantics := by
  unfold featuresOfField facetsOf fieldFeatures
  simp only [List.map_append, List.map_flatMap, List.flatMap_append, List.flatMap_map,
    encode_facetFeatures, Feature.encode, List.append_assoc]
  cases semantics.canonicalFieldId <;> rfl

/-- The bytes a signature counts are the codes of the features. -/
theorem occurrences_eq (metadata : SemanticMetadata) :
    occurrences metadata = (featuresOf metadata).map Feature.encode := by
  unfold occurrences featuresOf
  rw [List.map_append, List.map_flatMap]
  simp only [encode_featuresOfField]
  cases metadata.eventType <;> rfl

/-! ## Reading codes back -/

/-- The class of a facet that is bound to a field id, and of one that is not. -/
def Facet.boundTag : Facet → FeatureTag
  | .identifierNamespace _ => .fieldIdns
  | .unit _ => .fieldUnit
  | .enumMeaning _ => .fieldEnum
  | .temporal _ => .fieldTemporal

def Facet.tag : Facet → FeatureTag
  | .identifierNamespace _ => .idns
  | .unit _ => .unit
  | .enumMeaning _ => .enumMeaning
  | .temporal _ => .temporal

def Feature.tag : Feature → FeatureTag
  | .event _ => .event
  | .field _ => .field
  | .bound _ facet => facet.boundTag
  | .standalone facet => facet.tag

/-- What is written of a facet. -/
def Facet.payload : Facet → Bytes
  | .identifierNamespace namespaceCode => lpStr namespaceCode
  | .unit ⟨system, code⟩ => unitSystemByte system :: lpStr code
  | .enumMeaning meaning => lpStr meaning.vocabulary ++ lpStr meaning.code
  | .temporal kind => [temporalKindByte kind]

/-- What is written of a feature behind its tag. -/
def Feature.payload : Feature → Bytes
  | .event eventType => lpStr eventType
  | .field cfid => lpStr cfid
  | .bound cfid facet => lpStr cfid ++ facet.payload
  | .standalone facet => facet.payload

theorem encode_eq (feature : Feature) :
    feature.encode = feature.tag.toByte :: feature.payload := by
  rcases feature with eventType | cfid | ⟨cfid, facet⟩ | facet
  · rfl
  · rfl
  · cases facet <;> rfl
  · cases facet <;> rfl

theorem tagOf_encode (feature : Feature) : tagOf feature.encode = some feature.tag := by
  rw [encode_eq]
  simp [tagOf]

def Facet.Below (limit : ℕ) : Facet → Prop
  | .identifierNamespace namespaceCode => TextBelow limit namespaceCode
  | .unit ⟨_, code⟩ => TextBelow limit code
  | .enumMeaning meaning => MeaningCode.Below limit meaning
  | .temporal _ => True

/-- Every text of the feature is shorter than the limit. -/
def Feature.Below (limit : ℕ) : Feature → Prop
  | .event eventType => TextBelow limit eventType
  | .field cfid => TextBelow limit cfid
  | .bound cfid facet => TextBelow limit cfid ∧ facet.Below limit
  | .standalone facet => facet.Below limit

theorem unitSystemByte_injective : Function.Injective unitSystemByte := by
  intro left right heq
  cases left <;> cases right <;> first | rfl | cases heq

theorem temporalKindByte_injective : Function.Injective temporalKindByte := by
  intro left right heq
  cases left <;> cases right <;> first | rfl | cases heq

theorem toByte_injective : Function.Injective FeatureTag.toByte := by
  intro left right heq
  have hsome := congrArg FeatureTag.fromByte heq
  rwa [FeatureTag.fromByte_toByte, FeatureTag.fromByte_toByte, Option.some.injEq] at hsome

theorem unitPayload_readsBackOn :
    ReadsBackOn (fun unit ↦ TextBelow lengthLimit unit.code)
      (fun unit : Umbrella.Unit ↦ unitSystemByte unit.system :: lpStr unit.code) := by
  rintro ⟨system, code⟩ ⟨system', code'⟩ hvalue hother rest left heq
  rcases List.cons.inj heq with ⟨hbyte, htail⟩
  rcases lpStr_readsBackOn _ _ hvalue hother _ _ htail with ⟨hcode, hrest⟩
  have hsystem : system = system' := unitSystemByte_injective hbyte
  exact ⟨Umbrella.Unit.mk.injEq .. ▸ ⟨hsystem, hcode⟩, hrest⟩

/-- Facets of one class are told apart by what is written of them. -/
theorem Facet.payload_readsBack {facet other : Facet} (htag : facet.tag = other.tag)
    (hfacet : facet.Below lengthLimit) (hother : other.Below lengthLimit)
    {rest left : Bytes} (heq : facet.payload ++ rest = other.payload ++ left) :
    facet = other ∧ rest = left := by
  cases facet with
  | identifierNamespace namespaceCode =>
      cases other with
      | identifierNamespace namespaceCode' =>
          rcases lpStr_readsBackOn _ _ hfacet hother _ _ heq with ⟨rfl, hrest⟩
          exact ⟨rfl, hrest⟩
      | _ => cases htag
  | unit unit =>
      cases other with
      | unit unit' =>
          rcases unitPayload_readsBackOn _ _ hfacet hother _ _ heq with ⟨rfl, hrest⟩
          exact ⟨rfl, hrest⟩
      | _ => cases htag
  | enumMeaning meaning =>
      cases other with
      | enumMeaning meaning' =>
          rcases encodeMeaningCode_readsBackOn _ _ hfacet hother _ _ heq with ⟨rfl, hrest⟩
          exact ⟨rfl, hrest⟩
      | _ => cases htag
  | temporal kind =>
      cases other with
      | temporal kind' =>
          rcases byte_readsBackOn temporalKindByte_injective _ _ trivial trivial _ _ heq with
            ⟨rfl, hrest⟩
          exact ⟨rfl, hrest⟩
      | _ => cases htag

/-- The class of a facet is known from the class of the feature. -/
theorem Facet.tag_of_boundTag {facet other : Facet} (htag : facet.boundTag = other.boundTag) :
    facet.tag = other.tag := by
  cases facet <;> cases other <;> first | rfl | cases htag

/-- A feature is read back from its code, whatever follows, if its texts fit. -/
theorem encode_readsBackOn : ReadsBackOn (Feature.Below lengthLimit) Feature.encode := by
  intro feature other hfeature hother rest left heq
  rw [encode_eq, encode_eq] at heq
  have htag : feature.tag = other.tag := toByte_injective (List.cons.inj heq).1
  have hpayload : feature.payload ++ rest = other.payload ++ left := (List.cons.inj heq).2
  rcases feature with eventType | cfid | ⟨cfid, facet⟩ | facet
  · rcases other with eventType' | cfid' | ⟨cfid', facet'⟩ | facet'
    · rcases lpStr_readsBackOn _ _ hfeature hother _ _ hpayload with ⟨rfl, hrest⟩
      exact ⟨rfl, hrest⟩
    · cases htag
    · cases facet' <;> cases htag
    · cases facet' <;> cases htag
  · rcases other with eventType' | cfid' | ⟨cfid', facet'⟩ | facet'
    · cases htag
    · rcases lpStr_readsBackOn _ _ hfeature hother _ _ hpayload with ⟨rfl, hrest⟩
      exact ⟨rfl, hrest⟩
    · cases facet' <;> cases htag
    · cases facet' <;> cases htag
  · rcases other with eventType' | cfid' | ⟨cfid', facet'⟩ | facet'
    · cases facet <;> cases htag
    · cases facet <;> cases htag
    · rw [Feature.payload, Feature.payload, List.append_assoc, List.append_assoc] at hpayload
      rcases lpStr_readsBackOn _ _ hfeature.1 hother.1 _ _ hpayload with ⟨rfl, hfacets⟩
      rcases Facet.payload_readsBack (Facet.tag_of_boundTag htag) hfeature.2 hother.2 hfacets with
        ⟨rfl, hrest⟩
      exact ⟨rfl, hrest⟩
    · cases facet <;> cases facet' <;> cases htag
  · rcases other with eventType' | cfid' | ⟨cfid', facet'⟩ | facet'
    · cases facet <;> cases htag
    · cases facet <;> cases htag
    · cases facet <;> cases facet' <;> cases htag
    · rcases Facet.payload_readsBack htag hfeature hother hpayload with ⟨rfl, hrest⟩
      exact ⟨rfl, hrest⟩

/-! ## What a signature counts -/

/-- `getEntry` compares keys by their order, as `insertWith` does. -/
theorem getEntry_insertWith {K V : Type} [LinearOrder K] {map : List (K × V)}
    (hmap : SortedKeys map) (key other : K) (value : V) (combine : V → V) :
    getEntry (insertWith key value combine map) other =
      if other = key then some ((getEntry map key).elim value combine) else getEntry map other :=
  lookup_insertWith hmap key other value combine

/-- A feature is counted as often as it occurs, up to the cap. -/
theorem getEntry_foldl_bump (keys : List Bytes) (key : Bytes) :
    getEntry (keys.foldl bump []) key =
      if keys.count key = 0 then none else some (min (keys.count key) maxFeatureCount) := by
  induction keys using List.reverseRecOn with
  | nil => rfl
  | append_singleton keys last ih =>
      rw [List.foldl_append, List.foldl_cons, List.foldl_nil, bump,
        getEntry_insertWith (sortedKeys_foldl_bump keys), List.count_append, List.count_singleton]
      by_cases hkey : key = last
      · subst hkey
        rw [if_pos rfl, ih]
        by_cases hzero : keys.count key = 0
        · simp [hzero]
        · have hcap : min (min (keys.count key) maxFeatureCount + 1) maxFeatureCount =
              min (keys.count key + 1) maxFeatureCount := by omega
          simp [hzero, hcap]
      · have hother : (last == key) = false := beq_eq_false_iff_ne.mpr (Ne.symm hkey)
        rw [if_neg hkey, ih, hother]
        simp

theorem counts_foldl_bump (keys : List Bytes) :
    ∀ entry ∈ keys.foldl bump [], 0 < entry.2 ∧ entry.2 ≤ maxFeatureCount := by
  intro entry hentry
  have hcount : getEntry (keys.foldl bump []) entry.1 = some entry.2 :=
    (sortedKeys_foldl_bump keys).mem_iff.mp hentry
  rw [getEntry_foldl_bump] at hcount
  split_ifs at hcount with hzero
  rw [← Option.some.inj hcount]
  exact ⟨lt_min (Nat.pos_of_ne_zero hzero) (by decide), min_le_right _ _⟩

/-- The order of the features does not matter. -/
theorem foldl_bump_perm {left right : List Bytes} (hperm : left.Perm right) :
    left.foldl bump [] = right.foldl bump [] := by
  apply SortedKeys.ext (sortedKeys_foldl_bump left) (sortedKeys_foldl_bump right)
  intro key
  have hleft := getEntry_foldl_bump left key
  have hright := getEntry_foldl_bump right key
  rw [hperm.count_eq, ← hright] at hleft
  exact hleft

end Deblob.Semantic.Signature
