import Deblob.Semantic.NormalForm
import Deblob.Semantic.Vocab

/-!
# Canonical bytes identify the normal form

Accepted metadata whose lengths fit 32 bits have the same canonical bytes exactly if they have the
same normal form. Metadata with longer texts are written as well, with their lengths truncated, and
then the text of one can be taken for the fields of another.
-/

namespace Deblob.Semantic

open Core Lib Canon

/-! ## Enum values -/

/-- Digits are as many bytes, and no more than the literal has. -/
theorem canonValue_fits {value : EnumValue} {canon : CanonValue}
    (hcanon : canonValue value = some canon) (hbelow : EnumValue.Below lengthLimit value) :
    canon.Fits := by
  cases value with
  | null =>
      cases hcanon
      trivial
  | bool value =>
      cases hcanon
      trivial
  | string text =>
      cases hcanon
      exact hbelow
  | number text =>
      rcases Option.map_eq_some_iff.mp hcanon with ⟨decimal, hdecimal, rfl⟩
      rcases canonicalDecimal_spec hdecimal with ⟨-, hexponent, hlength, hdigits⟩
      have hascii : ∀ digit ∈ decimal.digits, digit.toNat < 128 := by
        intro digit hdigit
        have hisDigit := List.all_eq_true.mp hdigits digit hdigit
        have hrange : 48 ≤ digit.toNat ∧ digit.toNat ≤ 57 := by
          simpa [Char.isDigit, UInt32.le_iff_toNat_le] using hisDigit
        omega
      refine ⟨hexponent, ?_⟩
      unfold TextBelow
      rw [utf8_ofList_ascii hascii, List.length_map]
      exact lt_of_le_of_lt (hlength.trans (length_le_length_utf8 text)) hbelow

theorem canonValue_eq_iff {left right : EnumValue} {first second : CanonValue}
    (hleft : canonValue left = some first) (hright : canonValue right = some second) :
    first = second ↔ normalValue left = normalValue right := by
  have hnumber {text : String} {decimal : CanonicalDecimal}
      (hdecimal : canonicalDecimal text = some decimal) :
      decimalValue text = some ((decimalValue text).getD 0) := by
    rw [decimalValue_of_canonicalDecimal hdecimal]
    rfl
  cases left with
  | number left =>
      rcases Option.map_eq_some_iff.mp hleft with ⟨leftDecimal, hleftDecimal, rfl⟩
      cases right with
      | number right =>
          rcases Option.map_eq_some_iff.mp hright with ⟨rightDecimal, hrightDecimal, rfl⟩
          rw [CanonValue.number.injEq, canonicalDecimal_eq_iff hleftDecimal hrightDecimal,
            hnumber hleftDecimal, hnumber hrightDecimal, Option.some.injEq, normalValue,
            normalValue, NormalValue.number.injEq]
      | _ =>
          cases hright
          simp [normalValue]
  | _ =>
      cases hleft
      cases right with
      | number right =>
          rcases Option.map_eq_some_iff.mp hright with ⟨rightDecimal, -, rfl⟩
          simp [normalValue]
      | _ =>
          cases hright
          simp [normalValue]

theorem valueCode_eq_iff {left right : EnumValue} (hleft : (canonValue left).isSome)
    (hright : (canonValue right).isSome) (hleftBelow : EnumValue.Below lengthLimit left)
    (hrightBelow : EnumValue.Below lengthLimit right) :
    valueCode left = valueCode right ↔ normalValue left = normalValue right := by
  rcases Option.isSome_iff_exists.mp hleft with ⟨first, hfirst⟩
  rcases Option.isSome_iff_exists.mp hright with ⟨second, hsecond⟩
  rw [← canonValue_eq_iff hfirst hsecond]
  unfold valueCode
  rw [hfirst, hsecond]
  constructor
  · exact canonValue_readsBackOn.inj (canonValue_fits hfirst hleftBelow)
      (canonValue_fits hsecond hrightBelow)
  · rintro rfl
    rfl

/-! ## Attributes -/

theorem attributeView_fits {semantics : FieldSemantics}
    (hvalid : ValidEnums (semantics.enumSemantics.getD []))
    (hbelow : FieldSemantics.Below lengthLimit semantics) : (attributeView semantics).Fits where
  canonicalFieldId := hbelow.canonicalFieldId
  identifierNamespace := hbelow.identifierNamespace
  unit := hbelow.unit
  temporal := by
    intro temporal htemporal
    exact hbelow.temporal temporal (Option.mem_filter_iff.mp htemporal).1
  enums := by
    intro entries hentries
    have hsorted : sortByKey ((semantics.enumSemantics.getD []).map entryCode) = entries := by
      unfold attributeView enumView at hentries
      dsimp only at hentries
      split_ifs at hentries
      · cases hentries
      · exact Option.some.inj hentries
    subst hsorted
    rw [length_sortByKey, List.length_map]
    refine ⟨hbelow.enumCount, fun entry hentry ↦ ?_⟩
    rcases List.mem_map.mp (mem_sortByKey.mp hentry) with ⟨mapping, hmapping, rfl⟩
    rcases hbelow.enums mapping hmapping with ⟨hvalue, hmeaning⟩
    rcases Option.isSome_iff_exists.mp (hvalid.1 mapping hmapping) with ⟨canon, hcanon⟩
    refine ⟨⟨canon, canonValue_fits hcanon hvalue, ?_⟩, hmeaning⟩
    unfold entryCode valueCode
    rw [hcanon]
    rfl

/-- Sorted by their codes, two lists of enum values are the same exactly if they hold the same. -/
theorem enumView_eq_iff {left right : List EnumMapping} (hleft : ValidEnums left)
    (hright : ValidEnums right)
    (hleftBelow : ∀ mapping ∈ left, EnumValue.Below lengthLimit mapping.value)
    (hrightBelow : ∀ mapping ∈ right, EnumValue.Below lengthLimit mapping.value) :
    enumView left = enumView right ↔
      (left.map normalMapping).toFinset = (right.map normalMapping).toFinset := by
  have hentry : ∀ mapping ∈ left, ∀ other ∈ right,
      entryCode mapping = entryCode other ↔ normalMapping mapping = normalMapping other := by
    intro mapping hmapping other hother
    unfold entryCode normalMapping
    rw [Prod.mk.injEq, Prod.mk.injEq, valueCode_eq_iff (hleft.1 _ hmapping) (hright.1 _ hother)
      (hleftBelow _ hmapping) (hrightBelow _ hother)]
  have hkeys {mappings : List EnumMapping} (hvalid : ValidEnums mappings) :
      ((mappings.map entryCode).map Prod.fst).Nodup := by
    rw [List.map_map]
    exact hvalid.2
  rw [← mem_map_iff_toFinset hentry, ← sortByKey_eq_iff (hkeys hleft) (hkeys hright)]
  have hview (mappings : List EnumMapping) : enumView mappings =
      if sortByKey (mappings.map entryCode) = [] then none
      else some (sortByKey (mappings.map entryCode)) := by
    have hnil : sortByKey (mappings.map entryCode) = [] ↔ mappings.isEmpty := by
      rw [← List.length_eq_zero_iff, length_sortByKey, List.length_map, List.length_eq_zero_iff,
        List.isEmpty_iff]
    unfold enumView
    simp only [hnil]
  rw [hview, hview]
  constructor
  · intro heq
    split_ifs at heq with hleftNil hrightNil hrightNil
    · rw [hleftNil, hrightNil]
    · exact Option.some.inj heq
  · intro heq
    rw [heq]

theorem attributeBytes_eq_iff {left right : FieldSemantics}
    (hleft : ValidEnums (left.enumSemantics.getD []))
    (hright : ValidEnums (right.enumSemantics.getD []))
    (hleftBelow : FieldSemantics.Below lengthLimit left)
    (hrightBelow : FieldSemantics.Below lengthLimit right) :
    (attributeView left).bytes = (attributeView right).bytes ↔
      normalSemantics left = normalSemantics right := by
  have hbytes : (attributeView left).bytes = (attributeView right).bytes ↔
      attributeView left = attributeView right := by
    constructor
    · exact AttributeView.bytes_readsBackOn.inj (attributeView_fits hleft hleftBelow)
        (attributeView_fits hright hrightBelow)
    · intro heq
      rw [heq]
  have henums := enumView_eq_iff hleft hright
    (fun mapping hmapping ↦ (hleftBelow.enums mapping hmapping).1)
    fun mapping hmapping ↦ (hrightBelow.enums mapping hmapping).1
  rw [hbytes]
  unfold attributeView normalSemantics
  rw [AttributeView.mk.injEq, NormalSemantics.mk.injEq, henums]

/-! ## Metadata -/

section

variable {nfc : String → String} {left right : SemanticMetadata}

theorem fieldCode_eq_iff {field other : FieldEntry}
    (hfield : ValidEnums (field.semantics.enumSemantics.getD []))
    (hother : ValidEnums (other.semantics.enumSemantics.getD []))
    (hfieldPath : PathBelow lengthLimit (field.path.map (normalSegment nfc)))
    (hotherPath : PathBelow lengthLimit (other.path.map (normalSegment nfc)))
    (hfieldBelow : FieldSemantics.Below lengthLimit field.semantics)
    (hotherBelow : FieldSemantics.Below lengthLimit other.semantics) :
    fieldCode nfc field = fieldCode nfc other ↔ normalField nfc field = normalField nfc other := by
  have hpath : pathBytes (field.path.map (normalSegment nfc)) =
      pathBytes (other.path.map (normalSegment nfc)) ↔
        field.path.map (normalSegment nfc) = other.path.map (normalSegment nfc) := by
    constructor
    · exact pathBytes_readsBackOn.inj hfieldPath hotherPath
    · intro heq
      rw [heq]
  unfold fieldCode normalField
  rw [Prod.mk.injEq, Prod.mk.injEq, hpath,
    attributeBytes_eq_iff hfield hother hfieldBelow hotherBelow]

/-- The codes of a path and of attributes that fit. -/
def FieldFits (entry : Bytes × Bytes) : Prop :=
  (∃ path, PathBelow lengthLimit path ∧ pathBytes path = entry.1) ∧
    ∃ view, AttributeView.Fits view ∧ view.bytes = entry.2

theorem fields_readsBackOn :
    ReadsBackOn (fun fields ↦ fields.length < lengthLimit ∧ ∀ entry ∈ fields, FieldFits entry)
      (counted fun (pathBytes, attributeBytes) ↦ pathBytes ++ attributeBytes) :=
  counted_readsBackOn (pathBytes_readsBackOn.codes.append AttributeView.bytes_readsBackOn.codes)

theorem normalizedOf_fields_fit (haccepted : Accepted nfc left)
    (hbelow : SemanticMetadata.Below lengthLimit nfc left) :
    (normalizedOf nfc left).fields.length < lengthLimit ∧
      ∀ entry ∈ (normalizedOf nfc left).fields, FieldFits entry := by
  unfold normalizedOf
  dsimp only
  constructor
  · rw [length_sortByKey, List.length_map]
    exact (List.length_filter_le _ _).trans_lt hbelow.fieldCount
  · intro entry hentry
    rcases List.mem_map.mp (mem_sortByKey.mp hentry) with ⟨field, hsurvives, rfl⟩
    have hfield := List.mem_of_mem_filter hsurvives
    exact ⟨⟨_, hbelow.paths field hfield, rfl⟩, ⟨attributeView field.semantics,
      attributeView_fits (haccepted.enums field hfield) (hbelow.semantics field hfield), rfl⟩⟩

/-- The event type and the fields are read back one after the other. -/
theorem encodeNormalized_inj (hleft : Accepted nfc left) (hright : Accepted nfc right)
    (hleftBelow : SemanticMetadata.Below lengthLimit nfc left)
    (hrightBelow : SemanticMetadata.Below lengthLimit nfc right)
    (heq : encodeNormalized (normalizedOf nfc left) = encodeNormalized (normalizedOf nfc right)) :
    left.eventType = right.eventType ∧
      (normalizedOf nfc left).fields = (normalizedOf nfc right).fields := by
  have hsplit (metadata : SemanticMetadata) : encodeNormalized (normalizedOf nfc metadata) =
      [if metadata.eventType.isSome then 1 else 0] ++ (metadata.eventType.elim [] lpStr ++
        counted (fun (pathBytes, attributeBytes) ↦ pathBytes ++ attributeBytes)
          (normalizedOf nfc metadata).fields) := by
    unfold encodeNormalized normalizedOf
    cases metadata.eventType <;> rfl
  rw [hsplit, hsplit] at heq
  rcases flag_readsBackOn _ _ trivial trivial _ _ heq with ⟨hpresent, heq⟩
  rw [← List.append_nil (counted _ (normalizedOf nfc left).fields),
    ← List.append_nil (counted _ (normalizedOf nfc right).fields)] at heq
  rcases lpStr_readsBackOn.optional hleftBelow.eventType hrightBelow.eventType hpresent heq with
    ⟨hevent, heq⟩
  rcases fields_readsBackOn _ _ (normalizedOf_fields_fit hleft hleftBelow)
    (normalizedOf_fields_fit hright hrightBelow) _ _ heq with ⟨hfields, -⟩
  exact ⟨hevent, hfields⟩

theorem normalizedOf_fields_eq_iff (hleft : Accepted nfc left) (hright : Accepted nfc right)
    (hleftBelow : SemanticMetadata.Below lengthLimit nfc left)
    (hrightBelow : SemanticMetadata.Below lengthLimit nfc right) :
    (normalizedOf nfc left).fields = (normalizedOf nfc right).fields ↔
      (normalForm nfc left).fields = (normalForm nfc right).fields := by
  have hkeys {metadata : SemanticMetadata} (haccepted : Accepted nfc metadata) :
      (((metadata.fields.filter Survives).map (fieldCode nfc)).map Prod.fst).Nodup := by
    rw [List.map_map]
    exact haccepted.paths.sublist (List.filter_sublist.map _)
  have hviews : ∀ field ∈ left.fields.filter Survives, ∀ other ∈ right.fields.filter Survives,
      fieldCode nfc field = fieldCode nfc other ↔
        normalField nfc field = normalField nfc other := by
    intro field hsurvives other hotherSurvives
    have hfield := List.mem_of_mem_filter hsurvives
    have hother := List.mem_of_mem_filter hotherSurvives
    exact fieldCode_eq_iff (hleft.enums field hfield) (hright.enums other hother)
      (hleftBelow.paths field hfield) (hrightBelow.paths other hother)
      (hleftBelow.semantics field hfield) (hrightBelow.semantics other hother)
  unfold normalizedOf normalForm
  dsimp only
  rw [sortByKey_eq_iff (hkeys hleft) (hkeys hright), mem_map_iff_toFinset hviews]

theorem encodeNormalized_eq_iff (hleft : Accepted nfc left) (hright : Accepted nfc right)
    (hleftBelow : SemanticMetadata.Below lengthLimit nfc left)
    (hrightBelow : SemanticMetadata.Below lengthLimit nfc right) :
    encodeNormalized (normalizedOf nfc left) = encodeNormalized (normalizedOf nfc right) ↔
      normalForm nfc left = normalForm nfc right := by
  have hfields := normalizedOf_fields_eq_iff hleft hright hleftBelow hrightBelow
  constructor
  · intro heq
    rcases encodeNormalized_inj hleft hright hleftBelow hrightBelow heq with ⟨hevent, hsame⟩
    exact NormalForm.mk.injEq .. ▸ ⟨hevent, hfields.mp hsame⟩
  · intro heq
    have hevent : left.eventType = right.eventType := congrArg NormalForm.eventType heq
    have hsame := hfields.mpr (congrArg NormalForm.fields heq)
    have hevents : (normalizedOf nfc left).eventTypeBytes =
        (normalizedOf nfc right).eventTypeBytes := congrArg (Option.map lpStr) hevent
    unfold encodeNormalized
    rw [hsame, hevents]

theorem canonicalSemanticBytes_ok {metadata : SemanticMetadata} {bytes : Bytes}
    (hbytes : canonicalSemanticBytes nfc metadata = .ok bytes) :
    bytes = encodeNormalized (normalizedOf nfc metadata) ∧ Accepted nfc metadata := by
  unfold canonicalSemanticBytes at hbytes
  cases hnormalize : normalize nfc metadata with
  | error err =>
      rw [hnormalize] at hbytes
      cases hbytes
  | ok normalized =>
      rw [hnormalize] at hbytes
      cases hbytes
      rcases normalize_ok hnormalize with ⟨rfl, haccepted⟩
      exact ⟨rfl, haccepted⟩

/-- Nothing survives exactly if the normal form is empty. -/
theorem normalizedOf_isEmpty_iff (metadata : SemanticMetadata) :
    (normalizedOf nfc metadata).isEmpty = true ↔ normalForm nfc metadata = .empty := by
  have hnil : sortByKey ((metadata.fields.filter Survives).map (fieldCode nfc)) = [] ↔
      metadata.fields.filter Survives = [] := by
    rw [← List.length_eq_zero_iff, length_sortByKey, List.length_map, List.length_eq_zero_iff]
  unfold Normalized.isEmpty normalizedOf normalForm NormalForm.empty
  rw [Bool.and_eq_true, List.isEmpty_iff, hnil, NormalForm.mk.injEq, List.toFinset_eq_empty_iff,
    List.map_eq_nil_iff]
  simp

theorem semanticFingerprint_eq_none_iff {sha256 : Bytes → Digest} {metadata : SemanticMetadata}
    {fingerprint : Option SemanticId}
    (hfingerprint : semanticFingerprint nfc sha256 metadata = .ok fingerprint) :
    fingerprint = none ↔ normalForm nfc metadata = .empty := by
  unfold semanticFingerprint at hfingerprint
  rcases Lib.Except.bind_eq_ok.mp hfingerprint with ⟨normalized, hnormalize, hrest⟩
  rcases normalize_ok hnormalize with ⟨rfl, -⟩
  rw [← normalizedOf_isEmpty_iff]
  split_ifs at hrest with hempty
  · cases hrest
    simp [hempty]
  · cases hrest
    simp [hempty]

end

/-! ## Long texts -/

/-- A text of ASCII characters, given by its bytes. -/
def asciiText (bytes : Bytes) : String :=
  String.ofList (bytes.map fun byte ↦ Char.ofNat byte.toNat)

theorem utf8_asciiText {bytes : Bytes} (hascii : ∀ byte ∈ bytes, byte.toNat < 128) :
    utf8 (asciiText bytes) = bytes := by
  have hsmall : ∀ number < 128, (Char.ofNat number).toNat = number := by decide
  have hchar : ∀ byte ∈ bytes, (Char.ofNat byte.toNat).toNat = byte.toNat :=
    fun byte hbyte ↦ hsmall byte.toNat (hascii byte hbyte)
  unfold asciiText
  rw [utf8_ofList_ascii]
  · rw [List.map_map]
    calc bytes.map _ = bytes.map id := by
          apply List.map_congr_left
          intro byte hbyte
          simp [hchar byte hbyte]
      _ = bytes := List.map_id bytes
  · intro char hmem
    rcases List.mem_map.mp hmem with ⟨byte, hbyte, rfl⟩
    rw [hchar byte hbyte]
    exact hascii byte hbyte

/-- A unit with so many NUL characters for its code. -/
def nulUnit (count : ℕ) : Umbrella.Unit := ⟨.registered, asciiText (List.replicate count 0)⟩

/-- The elements of so many arrays in each other, with a unit. -/
def nestedUnit (depth : ℕ) (unit : Umbrella.Unit) : FieldEntry :=
  ⟨List.replicate depth .wildcard, { FieldSemantics.none with unit := some unit }⟩

def nestedUnits (first second third : Umbrella.Unit) : SemanticMetadata :=
  ⟨some "", [nestedUnit 1 first, nestedUnit 2 second, nestedUnit 3 third]⟩

/-- The bytes of such a field. -/
def nestedBytes (depth : ℕ) (unit : Umbrella.Unit) : Bytes :=
  bigEndian 4 depth ++ (List.replicate depth 1 ++ 4 :: encodeUnit unit)

/-- The bytes behind the event type. -/
def nestedUnitsBytes (first second third : Umbrella.Unit) : Bytes :=
  bigEndian 4 3 ++ (nestedBytes 1 first ++ (nestedBytes 2 second ++ nestedBytes 3 third))

theorem encodeFieldSemantics_unit (fieldIndex : ℕ) (unit : Umbrella.Unit) :
    encodeFieldSemantics fieldIndex { FieldSemantics.none with unit := some unit } =
      .ok (some (4 :: encodeUnit unit)) := by
  simp [encodeFieldSemantics, encodeEnums, presence, FieldSemantics.none, pure, Except.pure, bind,
    Except.bind]

theorem canonicalSemanticBytes_nestedUnits (nfc : String → String)
    (first second third : Umbrella.Unit) :
    canonicalSemanticBytes nfc (nestedUnits first second third) =
      .ok (1 :: (lpStr "" ++ nestedUnitsBytes first second third)) := by
  have hpaths : (nestedUnits first second third).fields.zipIdx.mapM (fun entry ↦
      encodePath nfc entry.2 entry.1.path) =
        .ok [[0, 0, 0, 1, 1], [0, 0, 0, 2, 1, 1], [0, 0, 0, 3, 1, 1, 1]] := by
    simp only [nestedUnits, nestedUnit, List.zipIdx_cons, List.zipIdx_nil, List.mapM_cons,
      List.mapM_nil]
    rfl
  have hdistinct : firstDuplicate
      [[0, 0, 0, 1, 1], [0, 0, 0, 2, 1, 1], [0, 0, 0, 3, 1, 1, 1]] = none := rfl
  have hattributes : (nestedUnits first second third).fields.zipIdx.mapM
      (fun entry ↦ encodeFieldSemantics entry.2 entry.1.semantics) =
        .ok [some (4 :: encodeUnit first), some (4 :: encodeUnit second),
          some (4 :: encodeUnit third)] := by
    simp only [nestedUnits, nestedUnit, List.zipIdx_cons, List.zipIdx_nil, List.mapM_cons,
      List.mapM_nil, encodeFieldSemantics_unit]
    rfl
  have hsorted (a b c : Bytes) : sortByKey [(([0, 0, 0, 1, 1] : Bytes), a), ([0, 0, 0, 2, 1, 1], b),
      ([0, 0, 0, 3, 1, 1, 1], c)] =
        [([0, 0, 0, 1, 1], a), ([0, 0, 0, 2, 1, 1], b), ([0, 0, 0, 3, 1, 1, 1], c)] := by
    have hfirst : ([0, 0, 0, 1, 1] : Bytes) ≤ [0, 0, 0, 2, 1, 1] := by decide
    have hsecond : ([0, 0, 0, 2, 1, 1] : Bytes) ≤ [0, 0, 0, 3, 1, 1, 1] := by decide
    apply List.mergeSort_of_pairwise
    simp [hfirst, hsecond, hfirst.trans hsecond]
  unfold canonicalSemanticBytes Canon.normalize
  rw [hpaths]
  dsimp only [Bind.bind, Except.bind]
  rw [hdistinct]
  dsimp only
  rw [hattributes]
  change Except.ok (encodeNormalized ⟨some (lpStr ""), sortByKey [(_, _), (_, _), (_, _)]⟩) = _
  rw [hsorted]
  have hone : bigEndian 4 1 = [0, 0, 0, 1] := rfl
  have htwo : bigEndian 4 2 = [0, 0, 0, 2] := rfl
  have hthree : bigEndian 4 3 = [0, 0, 0, 3] := rfl
  simp [encodeNormalized, nestedUnitsBytes, nestedBytes, counted, hone, htwo, hthree]

theorem canonicalSemanticBytes_eventType (nfc : String → String) (event : String) :
    canonicalSemanticBytes nfc ⟨some event, []⟩ = .ok (1 :: (lpStr event ++ bigEndian 4 0)) := by
  have hnormalize : normalize nfc ⟨some event, []⟩ = .ok ⟨some (lpStr event), sortByKey []⟩ := rfl
  have hsorted : sortByKey ([] : List (Bytes × Bytes)) = [] := List.mergeSort_nil
  unfold canonicalSemanticBytes
  rw [hnormalize, hsorted]
  rfl

/-- The first `2 ^ 32` of the bytes as a text. -/
def hiddenText (bytes : Bytes) : String := asciiText (bytes.take lengthLimit)

/-- Metadata of nothing but that text. -/
def hiddenFields (bytes : Bytes) : SemanticMetadata := ⟨some (hiddenText bytes), []⟩

theorem utf8_hiddenText {bytes : Bytes} (hascii : ∀ byte ∈ bytes, byte.toNat < 128) :
    utf8 (hiddenText bytes) = bytes.take lengthLimit :=
  utf8_asciiText fun byte hbyte ↦ hascii byte (List.mem_of_mem_take hbyte)

/-- A length of `2 ^ 32` is written as zero, and the number of fields as what the text lacks. -/
theorem canonicalSemanticBytes_hiddenFields (nfc : String → String) {bytes : Bytes}
    (hascii : ∀ byte ∈ bytes, byte.toNat < 128) (hlength : bytes.length = lengthLimit + 4)
    (hlast : bytes.drop lengthLimit = bigEndian 4 0) :
    canonicalSemanticBytes nfc (hiddenFields bytes) = .ok (1 :: (lpStr "" ++ bytes)) := by
  have htake : (bytes.take lengthLimit).length = lengthLimit := by
    rw [List.length_take, hlength]
    omega
  have hzero : bigEndian 4 lengthLimit = bigEndian 4 0 := by
    apply bigEndian_inj.mpr
    unfold lengthLimit
    norm_num
  have hprefix : lpStr (hiddenText bytes) = lpStr "" ++ bytes.take lengthLimit := by
    have hempty : lpStr "" = bigEndian 4 0 := rfl
    unfold lpStr at hempty ⊢
    rw [utf8_hiddenText hascii, hempty, lengthPrefixed, htake, hzero]
  unfold hiddenFields
  rw [canonicalSemanticBytes_eventType, hprefix, List.append_assoc, ← hlast,
    List.take_append_drop]

section

variable {first second third : ℕ}

theorem utf8_nulUnit (count : ℕ) : utf8 (nulUnit count).code = List.replicate count 0 := by
  apply utf8_asciiText
  intro byte hbyte
  rw [List.eq_of_mem_replicate hbyte]
  decide

theorem encodeUnit_nulUnit (count : ℕ) :
    encodeUnit (nulUnit count) = 2 :: (bigEndian 4 count ++ List.replicate count 0) := by
  have htag : encodeUnit (nulUnit count) = 2 :: lengthPrefixed (utf8 (nulUnit count).code) := rfl
  rw [htag, utf8_nulUnit, lengthPrefixed, List.length_replicate]

theorem length_nestedUnitsBytes :
    (nestedUnitsBytes (nulUnit first) (nulUnit second) (nulUnit third)).length =
      first + second + third + 40 := by
  simp [nestedUnitsBytes, nestedBytes, encodeUnit_nulUnit]
  omega

theorem nestedUnitsBytes_ascii
    (hcounts : ∀ count ∈ [first, second, third], ∀ byte ∈ bigEndian 4 count, byte.toNat < 128) :
    ∀ byte ∈ nestedUnitsBytes (nulUnit first) (nulUnit second) (nulUnit third),
      byte.toNat < 128 := by
  have hdepths : ∀ depth ∈ [1, 2, 3], ∀ byte ∈ bigEndian 4 depth, byte.toNat < 128 := by
    decide +kernel
  have hrepeated (count : ℕ) {byte : UInt8} (hbyte : byte.toNat < 128) :
      ∀ item ∈ List.replicate count byte, item.toNat < 128 := by
    intro item hitem
    rw [List.eq_of_mem_replicate hitem]
    exact hbyte
  have hnested : ∀ depth ∈ [1, 2, 3], ∀ count ∈ [first, second, third],
      ∀ byte ∈ nestedBytes depth (nulUnit count), byte.toNat < 128 := by
    intro depth hdepth count hcount
    rw [nestedBytes, encodeUnit_nulUnit, List.forall_mem_append, List.forall_mem_append,
      List.forall_mem_cons, List.forall_mem_cons, List.forall_mem_append]
    exact ⟨hdepths depth hdepth, hrepeated depth (by decide), by decide, by decide,
      hcounts count hcount, hrepeated count (by decide)⟩
  rw [nestedUnitsBytes, List.forall_mem_append, List.forall_mem_append, List.forall_mem_append]
  exact ⟨hdepths 3 (by simp), hnested 1 (by simp) first (by simp),
    hnested 2 (by simp) second (by simp), hnested 3 (by simp) third (by simp)⟩

/-- The last four bytes are NUL characters. -/
theorem drop_nestedUnitsBytes {kept : ℕ} (hthird : 4 ≤ third)
    (hkept : kept + 4 = first + second + third + 40) :
    (nestedUnitsBytes (nulUnit first) (nulUnit second) (nulUnit third)).drop kept =
      bigEndian 4 0 := by
  have hsuffix : ∃ front, nestedUnitsBytes (nulUnit first) (nulUnit second) (nulUnit third) =
      front ++ List.replicate third 0 := by
    refine ⟨bigEndian 4 3 ++ (nestedBytes 1 (nulUnit first) ++ (nestedBytes 2 (nulUnit second) ++
      (bigEndian 4 3 ++ ([1, 1, 1, 4, 2] ++ bigEndian 4 third)))), ?_⟩
    simp [nestedUnitsBytes, nestedBytes, encodeUnit_nulUnit, List.replicate]
  rcases hsuffix with ⟨front, hsplit⟩
  have hlength := @length_nestedUnitsBytes first second third
  rw [hsplit, List.length_append, List.length_replicate] at hlength
  have hlast : third - (kept - front.length) = 4 := by omega
  rw [hsplit, List.drop_append, List.drop_eq_nil_of_le (by omega), List.drop_replicate, hlast]
  rfl

end

/-- The units of these fields and the rest of their bytes take `2 ^ 32` bytes and four. -/
def longUnits : SemanticMetadata :=
  nestedUnits (nulUnit 0x7f7f7f7f) (nulUnit 0x7f7f7f00) (nulUnit 0x0101015d)

def longEventType : SemanticMetadata :=
  hiddenFields (nestedUnitsBytes (nulUnit 0x7f7f7f7f) (nulUnit 0x7f7f7f00) (nulUnit 0x0101015d))

theorem longCounts_ascii : ∀ count ∈ [0x7f7f7f7f, 0x7f7f7f00, 0x0101015d],
    ∀ byte ∈ bigEndian 4 count, byte.toNat < 128 := by
  decide +kernel

theorem longCounts_sum : lengthLimit + 4 = 0x7f7f7f7f + 0x7f7f7f00 + 0x0101015d + 40 := by
  unfold lengthLimit
  norm_num

theorem canonicalSemanticBytes_longEventType (nfc : String → String) :
    canonicalSemanticBytes nfc longEventType = canonicalSemanticBytes nfc longUnits := by
  unfold longEventType longUnits
  rw [canonicalSemanticBytes_nestedUnits, canonicalSemanticBytes_hiddenFields nfc
    (nestedUnitsBytes_ascii longCounts_ascii)
    (length_nestedUnitsBytes.trans longCounts_sum.symm)
    (drop_nestedUnitsBytes (by norm_num) longCounts_sum)]

theorem length_longEventType {event : String} (hevent : event ∈ longEventType.eventType) :
    (utf8 event).length = lengthLimit := by
  have htext : hiddenText (nestedUnitsBytes (nulUnit 0x7f7f7f7f) (nulUnit 0x7f7f7f00)
      (nulUnit 0x0101015d)) = event := Option.some.inj hevent
  have hlength := @length_nestedUnitsBytes 0x7f7f7f7f 0x7f7f7f00 0x0101015d
  rw [← longCounts_sum] at hlength
  rw [← htext, utf8_hiddenText (nestedUnitsBytes_ascii longCounts_ascii), List.length_take,
    hlength]
  omega

theorem eventType_longEventType_ne : longEventType.eventType ≠ some "" := by
  intro hevent
  have hlength : (utf8 "").length = lengthLimit := length_longEventType hevent
  have hempty : (utf8 "").length = 0 := rfl
  rw [hempty] at hlength
  unfold lengthLimit at hlength
  norm_num at hlength

/-- The one has a long event type, the other an empty one. -/
theorem normalForm_longEventType_ne (nfc : String → String) :
    normalForm nfc longEventType ≠ normalForm nfc longUnits :=
  fun heq ↦ eventType_longEventType_ne (congrArg NormalForm.eventType heq)

theorem longEventType_below {limit : ℕ} (nfc : String → String) (hlimit : lengthLimit < limit) :
    SemanticMetadata.Below limit nfc longEventType where
  eventType := by
    intro event hevent
    unfold TextBelow
    rw [length_longEventType hevent]
    exact hlimit
  fieldCount := (Nat.zero_le _).trans_lt hlimit
  paths := by simp [longEventType, hiddenFields]
  semantics := by simp [longEventType, hiddenFields]

theorem nestedUnit_below {limit depth count : ℕ} (nfc : String → String) (hdepth : depth < limit)
    (hcount : count < limit) :
    PathBelow limit ((nestedUnit depth (nulUnit count)).path.map (normalSegment nfc)) ∧
      FieldSemantics.Below limit (nestedUnit depth (nulUnit count)).semantics := by
  have hpos : 0 < limit := (Nat.zero_le _).trans_lt hdepth
  constructor
  · constructor
    · simpa [nestedUnit] using hdepth
    · intro segment hsegment
      simp only [nestedUnit, List.map_replicate] at hsegment
      rw [List.eq_of_mem_replicate hsegment]
      trivial
  · constructor
    · simp [nestedUnit, FieldSemantics.none]
    · simp [nestedUnit, FieldSemantics.none]
    · intro unit hunit
      cases hunit
      unfold TextBelow
      rw [utf8_nulUnit, List.length_replicate]
      exact hcount
    · simp [nestedUnit, FieldSemantics.none]
    · exact hpos
    · simp [nestedUnit, FieldSemantics.none]

theorem longUnits_below {limit : ℕ} (nfc : String → String) (hlimit : lengthLimit < limit) :
    SemanticMetadata.Below limit nfc longUnits := by
  have hlarge : 256 ^ 4 < limit := hlimit
  have hfields : ∀ field ∈ longUnits.fields,
      PathBelow limit (field.path.map (normalSegment nfc)) ∧
        FieldSemantics.Below limit field.semantics := by
    unfold longUnits nestedUnits
    simp only [List.forall_mem_cons, List.not_mem_nil, false_imp_iff, implies_true, and_true]
    exact ⟨nestedUnit_below nfc (by omega) (by omega), nestedUnit_below nfc (by omega) (by omega),
      nestedUnit_below nfc (by omega) (by omega)⟩
  constructor
  · intro event hevent
    cases hevent
    have hempty : (utf8 "").length = 0 := rfl
    unfold TextBelow
    omega
  · have hcount : longUnits.fields.length = 3 := rfl
    omega
  · exact fun field hfield ↦ (hfields field hfield).1
  · exact fun field hfield ↦ (hfields field hfield).2

/-- A field of each kind of path and one that asserts nothing, in two orders. -/
def orderedFields : SemanticMetadata :=
  ⟨none, [⟨[.key "mass"], { FieldSemantics.none with unit := some ⟨.ucum, "kg"⟩ }⟩,
    ⟨[.wildcard], { FieldSemantics.none with canonicalFieldId := some "id" }⟩]⟩

def swappedFields : SemanticMetadata :=
  ⟨none, [⟨[.wildcard], { FieldSemantics.none with canonicalFieldId := some "id" }⟩,
    ⟨[.key "note"], { FieldSemantics.none with temporal := some emptyTemporal }⟩,
    ⟨[.key "mass"], { FieldSemantics.none with unit := some ⟨.ucum, "kg"⟩ }⟩]⟩

/-- Both are known to some registries. -/
theorem longEventType_valid :
    ∃ registries, validateMetadata registries longEventType = .ok () ∧
      validateMetadata registries longUnits = .ok () := by
  have hcode {count : ℕ} (hpos : 0 < count) : (nulUnit count).code ≠ "" := by
    intro heq
    have hlength := congrArg List.length (utf8_nulUnit count)
    rw [heq, List.length_replicate] at hlength
    exact hpos.ne hlength
  have hknown {depth count : ℕ} {registries : Registries} (hpos : 0 < count) :
      KnownSemantics registries (nestedUnit depth (nulUnit count)).semantics := by
    constructor
    · simp [nestedUnit, FieldSemantics.none]
    · intro unit hunit
      cases hunit
      exact decide_eq_true (hcode hpos)
    · simp [nestedUnit, FieldSemantics.none]
    · simp [nestedUnit, FieldSemantics.none]
  refine ⟨⟨∅, {longEventType.eventType.getD "", ""}⟩, ?_, ?_⟩
  · rw [validateMetadata_eq_ok]
    constructor
    · intro event hevent
      rw [Option.mem_def.mp hevent]
      exact Finset.mem_insert_self _ _
    · simp [longEventType, hiddenFields]
  · rw [validateMetadata_eq_ok]
    constructor
    · intro event hevent
      cases hevent
      simp
    · unfold longUnits nestedUnits
      simp only [List.forall_mem_cons, List.not_mem_nil, false_imp_iff, implies_true, and_true]
      exact ⟨hknown (by norm_num), hknown (by norm_num), hknown (by norm_num)⟩

theorem longEventType_same_bytes (nfc : String → String) :
    ∃ bytes, canonicalSemanticBytes nfc longEventType = .ok bytes ∧
      canonicalSemanticBytes nfc longUnits = .ok bytes := by
  have hbytes := canonicalSemanticBytes_nestedUnits nfc (nulUnit 0x7f7f7f7f) (nulUnit 0x7f7f7f00)
    (nulUnit 0x0101015d)
  exact ⟨_, (canonicalSemanticBytes_longEventType nfc).trans hbytes, hbytes⟩

end Deblob.Semantic
