import Deblob.Lib.Except
import Deblob.Semantic.CanonCodes
import Mathlib.Data.Finset.Card

/-!
# The normal form of semantic metadata

The normal form forgets the order of fields and enum values, the attributes that assert nothing and
the way numbers are written, and it keeps path keys in NFC. Two metadata that are accepted have the
same canonical bytes exactly if they have the same normal form, as long as the lengths of their
texts and lists fit the 32 bits they are written in; a longer text can be mistaken for other fields.
-/

namespace Deblob.Semantic

open Core Lib Canon

/-- An enum value with its number as a rational. -/
inductive NormalValue where
  | null
  | bool (value : Bool)
  | number (value : ℚ)
  | string (text : String)
deriving DecidableEq

def normalValue : EnumValue → NormalValue
  | .null => .null
  | .bool value => .bool value
  | .number text => .number ((decimalValue text).getD 0)
  | .string text => .string text

/-- The attributes of a field; an empty set of enum values stands for none. -/
structure NormalSemantics where
  canonicalFieldId : Option String
  identifierNamespace : Option String
  unit : Option Umbrella.Unit
  numericScale : Option Int64
  temporal : Option Temporal
  enums : Finset (NormalValue × MeaningCode)
deriving DecidableEq

def NormalSemantics.empty : NormalSemantics := ⟨none, none, none, none, none, ∅⟩

def normalMapping (mapping : EnumMapping) : NormalValue × MeaningCode :=
  (normalValue mapping.value, mapping.meaning)

def normalSemantics (semantics : FieldSemantics) : NormalSemantics where
  canonicalFieldId := semantics.canonicalFieldId
  identifierNamespace := semantics.identifierNamespace
  unit := semantics.unit
  numericScale := semantics.numericScale
  temporal := semantics.temporal.filter (· ≠ emptyTemporal)
  enums := ((semantics.enumSemantics.getD []).map normalMapping).toFinset

def normalSegment (nfc : String → String) : PathSegment → PathSegment
  | .key name => .key (nfc name)
  | .wildcard => .wildcard

def normalField (nfc : String → String) (field : FieldEntry) : List PathSegment × NormalSemantics :=
  (field.path.map (normalSegment nfc), normalSemantics field.semantics)

/-- The field asserts something. -/
def Survives (field : FieldEntry) : Prop := normalSemantics field.semantics ≠ .empty

instance : DecidablePred Survives := fun _ ↦ inferInstanceAs (Decidable (_ ≠ _))

structure NormalForm where
  eventType : Option String
  fields : Finset (List PathSegment × NormalSemantics)
deriving DecidableEq

def normalForm (nfc : String → String) (metadata : SemanticMetadata) : NormalForm where
  eventType := metadata.eventType
  fields := ((metadata.fields.filter Survives).map (normalField nfc)).toFinset

/-- Nothing is asserted. -/
def NormalForm.empty : NormalForm := ⟨none, ∅⟩

/-! ## Lengths -/

def EnumValue.Below (limit : ℕ) : EnumValue → Prop
  | .number text => TextBelow limit text
  | .string text => TextBelow limit text
  | _ => True

/-- Every text and list of the attributes is shorter than the limit. -/
structure FieldSemantics.Below (limit : ℕ) (semantics : FieldSemantics) : Prop where
  canonicalFieldId : ∀ cfid ∈ semantics.canonicalFieldId, TextBelow limit cfid
  identifierNamespace : ∀ namespaceCode ∈ semantics.identifierNamespace,
    TextBelow limit namespaceCode
  unit : ∀ unit ∈ semantics.unit, TextBelow limit unit.code
  temporal : ∀ temporal ∈ semantics.temporal, Temporal.Below limit temporal
  enumCount : (semantics.enumSemantics.getD []).length < limit
  enums : ∀ mapping ∈ semantics.enumSemantics.getD [],
    EnumValue.Below limit mapping.value ∧ MeaningCode.Below limit mapping.meaning

/-- Every text and list of the metadata is shorter than the limit, path keys after NFC. -/
structure SemanticMetadata.Below (limit : ℕ) (nfc : String → String) (metadata : SemanticMetadata) :
    Prop where
  eventType : ∀ event ∈ metadata.eventType, TextBelow limit event
  fieldCount : metadata.fields.length < limit
  paths : ∀ field ∈ metadata.fields, PathBelow limit (field.path.map (normalSegment nfc))
  semantics : ∀ field ∈ metadata.fields, FieldSemantics.Below limit field.semantics

theorem FieldSemantics.Below.mono {limit larger : ℕ} {semantics : FieldSemantics}
    (hbelow : FieldSemantics.Below limit semantics) (hle : limit ≤ larger) :
    FieldSemantics.Below larger semantics where
  canonicalFieldId := fun cfid hcfid ↦ (hbelow.canonicalFieldId cfid hcfid).trans_le hle
  identifierNamespace := fun code hcode ↦ (hbelow.identifierNamespace code hcode).trans_le hle
  unit := fun unit hunit ↦ (hbelow.unit unit hunit).trans_le hle
  temporal := fun temporal htemporal epoch hepoch ↦ by
    have hshort := hbelow.temporal temporal htemporal epoch hepoch
    cases epoch with
    | unix => trivial
    | registered code => exact Nat.lt_of_lt_of_le hshort hle
  enumCount := hbelow.enumCount.trans_le hle
  enums := fun mapping hmapping ↦ by
    rcases hbelow.enums mapping hmapping with ⟨hvalue, hvocabulary, hcode⟩
    refine ⟨?_, hvocabulary.trans_le hle, hcode.trans_le hle⟩
    rcases mapping with ⟨value, meaning⟩
    cases value with
    | null => trivial
    | bool value => trivial
    | number text => exact Nat.lt_of_lt_of_le hvalue hle
    | string text => exact Nat.lt_of_lt_of_le hvalue hle

theorem SemanticMetadata.Below.mono {limit larger : ℕ} {nfc : String → String}
    {metadata : SemanticMetadata} (hbelow : SemanticMetadata.Below limit nfc metadata)
    (hle : limit ≤ larger) : SemanticMetadata.Below larger nfc metadata where
  eventType := fun event hevent ↦ (hbelow.eventType event hevent).trans_le hle
  fieldCount := hbelow.fieldCount.trans_le hle
  paths := fun field hfield ↦ by
    rcases hbelow.paths field hfield with ⟨hlength, hsegments⟩
    refine ⟨hlength.trans_le hle, fun segment hsegment ↦ ?_⟩
    have hshort := hsegments segment hsegment
    cases segment with
    | wildcard => trivial
    | key name => exact Nat.lt_of_lt_of_le hshort hle
  semantics := fun field hfield ↦ (hbelow.semantics field hfield).mono hle

/-! ## What is written -/

/-- The bytes of an enum value. -/
def valueCode (value : EnumValue) : Bytes := ((canonValue value).map CanonValue.bytes).getD []

def entryCode (mapping : EnumMapping) : Bytes × MeaningCode :=
  (valueCode mapping.value, mapping.meaning)

def enumView (mappings : List EnumMapping) : Option (List (Bytes × MeaningCode)) :=
  if mappings.isEmpty then none else some (sortByKey (mappings.map entryCode))

def attributeView (semantics : FieldSemantics) : AttributeView where
  canonicalFieldId := semantics.canonicalFieldId
  identifierNamespace := semantics.identifierNamespace
  unit := semantics.unit
  numericScale := semantics.numericScale
  temporal := semantics.temporal.filter (· ≠ emptyTemporal)
  enums := enumView (semantics.enumSemantics.getD [])

/-- The enum values are well formed and no two of them are the same value. -/
def ValidEnums (mappings : List EnumMapping) : Prop :=
  (∀ mapping ∈ mappings, (canonValue mapping.value).isSome) ∧
    (mappings.map fun mapping ↦ valueCode mapping.value).Nodup

def fieldCode (nfc : String → String) (field : FieldEntry) : Bytes × Bytes :=
  (pathBytes (field.path.map (normalSegment nfc)), (attributeView field.semantics).bytes)

theorem typedValueBytes_ok {fieldIndex : ℕ} {value : EnumValue} {bytes : Bytes}
    (hbytes : typedValueBytes fieldIndex value = .ok bytes) :
    bytes = valueCode value ∧ (canonValue value).isSome := by
  rw [typedValueBytes_eq] at hbytes
  unfold valueCode
  cases hcanon : canonValue value with
  | none =>
      rw [hcanon] at hbytes
      cases hbytes
  | some canon =>
      rw [hcanon] at hbytes
      cases hbytes
      exact ⟨rfl, rfl⟩

theorem encodeEnumSemantics_ok {fieldIndex : ℕ} {mappings : List EnumMapping} {bytes : Bytes}
    (hbytes : encodeEnumSemantics fieldIndex mappings = .ok bytes) :
    bytes = enumBytes (sortByKey (mappings.map entryCode)) ∧ ValidEnums mappings := by
  unfold encodeEnumSemantics at hbytes
  rcases Lib.Except.bind_eq_ok.mp hbytes with ⟨entries, hentries, hrest⟩
  have hentry : ∀ mapping ∈ mappings, ∀ entry,
      (typedValueBytes fieldIndex mapping.value >>= fun valueBytes ↦
        pure (valueBytes, mapping.meaning)) = Except.ok entry →
      entry = entryCode mapping ∧ (canonValue mapping.value).isSome := by
    intro mapping _ entry hentry
    rcases Lib.Except.bind_eq_ok.mp hentry with ⟨valueBytes, hvalue, hpure⟩
    cases hpure
    rcases typedValueBytes_ok hvalue with ⟨rfl, hsome⟩
    exact ⟨rfl, hsome⟩
  rcases Lib.Except.map_of_mapM_ok hentries fun mapping hmapping entry hresult ↦
    (hentry mapping hmapping entry hresult).1 with ⟨rfl, hall⟩
  dsimp only at hrest
  split_ifs at hrest with hrepeats
  cases hrest
  refine ⟨rfl, fun mapping hmapping ↦ (hentry mapping hmapping _ (hall mapping hmapping)).2, ?_⟩
  have hsorted := pairwise_sortByKey (mappings.map entryCode)
  have hnodup := nodup_of_repeats (List.pairwise_map.mpr hsorted) (by simpa using hrepeats)
  have hperm := (sortByKey_perm (mappings.map entryCode)).map Prod.fst
  have hkeys := hperm.nodup_iff.mp hnodup
  rwa [List.map_map] at hkeys

theorem encodeEnums_ok {fieldIndex : ℕ} {enumSemantics : Option (List EnumMapping)}
    {bytes : Option Bytes} (hbytes : encodeEnums fieldIndex enumSemantics = .ok bytes) :
    bytes = (enumView (enumSemantics.getD [])).map enumBytes ∧
      ValidEnums (enumSemantics.getD []) := by
  cases enumSemantics with
  | none =>
      cases hbytes
      exact ⟨rfl, by simp [ValidEnums]⟩
  | some mappings =>
      simp only [encodeEnums] at hbytes
      split_ifs at hbytes with hempty
      · cases hbytes
        rw [List.isEmpty_iff] at hempty
        subst hempty
        exact ⟨rfl, by simp [ValidEnums]⟩
      · cases hencoded : encodeEnumSemantics fieldIndex mappings with
        | error err =>
            rw [hencoded] at hbytes
            cases hbytes
        | ok encoded =>
            rw [hencoded] at hbytes
            cases hbytes
            rcases encodeEnumSemantics_ok hencoded with ⟨rfl, hvalid⟩
            refine ⟨?_, hvalid⟩
            rw [Option.getD_some, enumView, if_neg hempty, Option.map_some]

/-- The bitmap is zero exactly if nothing is asserted. -/
theorem bitmap_eq_zero_iff (semantics : FieldSemantics) :
    (attributeView semantics).bitmap = 0 ↔ normalSemantics semantics = .empty := by
  have henums : (enumView (semantics.enumSemantics.getD [])).isSome = false ↔
      ((semantics.enumSemantics.getD []).map normalMapping).toFinset = ∅ := by
    unfold enumView
    cases semantics.enumSemantics.getD [] with
    | nil => simp
    | cons mapping mappings => simp
  have habsent {α : Type} (part : Option α) : part.isSome = false ↔ part = none := by
    cases part <;> simp
  unfold AttributeView.bitmap
  rw [bits_eq_zero]
  unfold normalSemantics NormalSemantics.empty attributeView
  dsimp only
  simp only [NormalSemantics.mk.injEq, henums, habsent]

theorem encodeFieldSemantics_ok {fieldIndex : ℕ} {semantics : FieldSemantics}
    {bytes : Option Bytes} (hbytes : encodeFieldSemantics fieldIndex semantics = .ok bytes) :
    bytes = (if normalSemantics semantics = .empty then none
        else some (attributeView semantics).bytes) ∧
      ValidEnums (semantics.enumSemantics.getD []) := by
  unfold encodeFieldSemantics at hbytes
  rcases Lib.Except.bind_eq_ok.mp hbytes with ⟨encoded, hencoded, hrest⟩
  rcases encodeEnums_ok hencoded with ⟨rfl, hvalid⟩
  refine ⟨?_, hvalid⟩
  have htemporal : semantics.temporal.bind encodeTemporal =
      (attributeView semantics).temporal.map temporalBytes := by
    unfold attributeView
    cases semantics.temporal with
    | none => rfl
    | some temporal =>
        rw [Option.bind_some, encodeTemporal_eq, Option.filter_some]
        by_cases hempty : temporal = emptyTemporal
        · simp [hempty]
        · simp [hempty]
  have hbitmap : presence 1 semantics.canonicalFieldId |||
      presence 2 semantics.identifierNamespace ||| presence 4 semantics.unit |||
      presence 8 semantics.numericScale |||
      presence 16 ((attributeView semantics).temporal.map temporalBytes) |||
      presence 32 ((enumView (semantics.enumSemantics.getD [])).map enumBytes) =
        (attributeView semantics).bitmap := by
    simp [AttributeView.bitmap, bits, presence, attributeView]
  have hpart {α : Type} (part : Option α) (code : α → Bytes) :
      (part.map code).getD [] = part.elim [] code := by
    cases part <;> rfl
  dsimp only at hrest
  rw [htemporal, hpart, hpart] at hrest
  cases hrest
  rw [hbitmap]
  simp only [bitmap_eq_zero_iff]
  rfl

/-! ## Metadata -/

theorem encodePath_ok {nfc : String → String} {fieldIndex : ℕ} {path : List PathSegment}
    {bytes : Bytes} (hbytes : encodePath nfc fieldIndex path = .ok bytes) :
    bytes = pathBytes (path.map (normalSegment nfc)) := by
  unfold encodePath at hbytes
  rcases Lib.Except.bind_eq_ok.mp hbytes with ⟨segments, hsegments, hrest⟩
  have hsegment : ∀ segment ∈ path, ∀ segmentIndex result,
      encodeSegment nfc fieldIndex segmentIndex segment = .ok result →
      result = segmentBytes (normalSegment nfc segment) := by
    intro segment _ segmentIndex result hresult
    cases segment with
    | wildcard =>
        cases hresult
        rfl
    | key name =>
        unfold encodeSegment at hresult
        dsimp only at hresult
        split_ifs at hresult
        cases hresult
        rfl
  rcases Lib.Except.map_of_mapM_zipIdx_ok hsegments hsegment with ⟨rfl, -⟩
  cases hrest
  unfold pathBytes counted
  rw [List.length_map, List.flatMap_def, List.map_map]
  rfl

theorem nodup_of_firstDuplicate {paths : List Bytes} (hnone : firstDuplicate paths = none) :
    paths.Nodup := by
  rw [List.nodup_iff_getElem?_ne_getElem?]
  intro earlier later hlt hlater heq
  unfold firstDuplicate at hnone
  have hsearch := List.findSome?_eq_none_iff.mp hnone later (List.mem_range.mpr hlater)
  rw [Option.map_eq_none_iff, List.find?_eq_none] at hsearch
  exact hsearch earlier (List.mem_range.mpr hlt) (decide_eq_true heq)

/-- What is written of accepted metadata. -/
def normalizedOf (nfc : String → String) (metadata : SemanticMetadata) : Normalized where
  eventTypeBytes := metadata.eventType.map lpStr
  fields := sortByKey ((metadata.fields.filter Survives).map (fieldCode nfc))

/-- No two fields have the same path, and the enum values of every field are in order. -/
structure Accepted (nfc : String → String) (metadata : SemanticMetadata) : Prop where
  paths : (metadata.fields.map fun field ↦
    pathBytes (field.path.map (normalSegment nfc))).Nodup
  enums : ∀ field ∈ metadata.fields, ValidEnums (field.semantics.enumSemantics.getD [])

theorem normalize_ok {nfc : String → String} {metadata : SemanticMetadata}
    {normalized : Normalized} (hnormalize : normalize nfc metadata = .ok normalized) :
    normalized = normalizedOf nfc metadata ∧ Accepted nfc metadata := by
  have hpath : ∀ field ∈ metadata.fields, ∀ fieldIndex result,
      encodePath nfc fieldIndex field.path = .ok result →
      result = pathBytes (field.path.map (normalSegment nfc)) :=
    fun _ _ _ _ hresult ↦ encodePath_ok hresult
  have hattribute : ∀ field ∈ metadata.fields, ∀ fieldIndex result,
      encodeFieldSemantics fieldIndex field.semantics = .ok result →
      result = if normalSemantics field.semantics = .empty then none
        else some (attributeView field.semantics).bytes :=
    fun _ _ _ _ hresult ↦ (encodeFieldSemantics_ok hresult).1
  unfold Canon.normalize at hnormalize
  rcases Lib.Except.bind_eq_ok.mp hnormalize with ⟨paths, hpaths, hrest⟩
  rcases @Lib.Except.map_of_mapM_zipIdx_ok _ _ _ (fun (field : FieldEntry) fieldIndex ↦
    encodePath nfc fieldIndex field.path) _ _ _ hpaths hpath with ⟨rfl, -⟩
  dsimp only at hrest
  cases hduplicate : firstDuplicate (metadata.fields.map fun field ↦
      pathBytes (field.path.map (normalSegment nfc))) with
  | some positions =>
      rw [hduplicate] at hrest
      cases hrest
  | none =>
      rw [hduplicate] at hrest
      rcases Lib.Except.bind_eq_ok.mp hrest with ⟨attributes, hattributes, hrest⟩
      rcases @Lib.Except.map_of_mapM_zipIdx_ok _ _ _ (fun (field : FieldEntry) fieldIndex ↦
        encodeFieldSemantics fieldIndex field.semantics) _ _ _ hattributes hattribute with
        ⟨rfl, hall⟩
      cases hrest
      refine ⟨?_, nodup_of_firstDuplicate hduplicate, fun field hfield ↦ ?_⟩
      · unfold normalizedOf
        congr 2
        have hsurvivors : (metadata.fields.filter Survives).map (fieldCode nfc) =
            metadata.fields.filterMap fun field ↦
              if Survives field then some (fieldCode nfc field) else none := by
          rw [← List.filterMap_eq_map, List.filterMap_filter]
          simp
        rw [List.zip_map', List.filterMap_map, hsurvivors]
        congr 1
        funext field
        by_cases hempty : normalSemantics field.semantics = .empty
        · simp [Survives, hempty]
        · simp [Survives, fieldCode, hempty]
      · rcases hall field hfield with ⟨fieldIndex, hfieldOk⟩
        exact (encodeFieldSemantics_ok hfieldOk).2

end Deblob.Semantic
