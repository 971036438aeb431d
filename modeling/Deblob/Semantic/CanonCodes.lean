import Deblob.Semantic.Canon

/-!
# Reading canonical bytes back

Each part of the canonical bytes is the code of a canonical view of the metadata, and the codes of
two views that are not the same differ whatever follows them, as long as every length that is
written fits its 32 bits.
-/

namespace Deblob.Semantic.Canon

open Core Lib
open Umbrella (UnitSystem)

/-- How many lengths can be told apart in the four bytes they are written in. -/
def lengthLimit : ℕ := 256 ^ 4

/-- The text has fewer bytes than the limit. -/
def TextBelow (limit : ℕ) (text : String) : Prop := (utf8 text).length < limit

/-- A text of ASCII characters takes a byte for each. -/
theorem utf8_ofList_ascii {chars : List Char} (hascii : ∀ char ∈ chars, char.toNat < 128) :
    utf8 (String.ofList chars) = chars.map fun char ↦ UInt8.ofNat char.toNat := by
  unfold utf8
  rw [String.toList_ofList, List.map_eq_flatMap]
  apply List.flatMap_congr
  intro char hchar
  have hsmall := hascii char hchar
  rw [String.utf8EncodeChar_eq_singleton]
  · rfl
  · rw [Char.utf8Size_eq_one_iff]
    exact UInt32.le_iff_toNat_le.mpr (Nat.le_of_lt_succ hsmall)

theorem length_le_length_utf8 (text : String) : text.toList.length ≤ (utf8 text).length := by
  unfold utf8
  induction text.toList with
  | nil => rfl
  | cons char chars ih =>
      have hpos := char.utf8Size_pos
      rw [List.flatMap_cons, List.length_append, String.length_utf8EncodeChar, List.length_cons]
      omega

theorem lpStr_readsBackOn : ReadsBackOn (TextBelow lengthLimit) lpStr :=
  lengthPrefixed_readsBackOn.comap (fun _ hshort ↦ hshort) fun _ _ _ _ heq ↦ utf8_injective heq

theorem i64Bytes_readsBackOn :
    ReadsBackOn (fun number ↦ -2 ^ 63 ≤ number ∧ number < 2 ^ 63) i64Bytes := by
  apply ReadsBackOn.of_length
  · intro value other _ _
    simp [i64Bytes]
  · intro value other hvalue hother heq
    have hmod := (bigEndian_inj_of_lt (by omega) (by omega)).mp heq
    omega

/-! ## Enum values -/

/-- A value with its number in canonical form. -/
inductive CanonValue where
  | null
  | bool (value : Bool)
  | number (decimal : CanonicalDecimal)
  | string (text : String)
deriving DecidableEq

def canonValue : EnumValue → Option CanonValue
  | .null => some .null
  | .bool value => some (.bool value)
  | .number text => (canonicalDecimal text).map .number
  | .string text => some (.string text)

def CanonValue.bytes : CanonValue → Bytes
  | null => [3]
  | bool value => [2, if value then 1 else 0]
  | number decimal => 1 :: (if decimal.negative then 1 else 0) ::
      (i64Bytes decimal.exponent ++ lpStr (String.ofList decimal.digits))
  | string text => 0 :: lpStr text

/-- The lengths and the exponent of a value fit their widths. -/
def CanonValue.Fits : CanonValue → Prop
  | number decimal => (-2 ^ 63 ≤ decimal.exponent ∧ decimal.exponent < 2 ^ 63) ∧
      TextBelow lengthLimit (String.ofList decimal.digits)
  | string text => TextBelow lengthLimit text
  | _ => True

theorem typedValueBytes_eq (fieldIndex : ℕ) (value : EnumValue) :
    typedValueBytes fieldIndex value = match canonValue value with
      | some canon => .ok canon.bytes
      | none => .error (.invalidEnumNumber fieldIndex) := by
  cases value with
  | null => rfl
  | bool value => rfl
  | string text => rfl
  | number text =>
      simp only [typedValueBytes, canonValue]
      cases canonicalDecimal text <;> rfl

/-- A flag in a byte of its own. -/
theorem flag_readsBackOn :
    ReadsBackOn (fun _ : Bool ↦ True) fun flag ↦ [if flag then (1 : UInt8) else 0] := by
  apply ReadsBackOn.of_length
  · intro value other _ _
    rfl
  · intro value other _ _ heq
    cases value <;> cases other <;> first | rfl | cases heq

theorem decimal_readsBackOn :
    ReadsBackOn (fun decimal : CanonicalDecimal ↦ (CanonValue.number decimal).Fits)
      fun decimal ↦ [if decimal.negative then 1 else 0] ++
        (i64Bytes decimal.exponent ++ lpStr (String.ofList decimal.digits)) := by
  have hparts := flag_readsBackOn.append (i64Bytes_readsBackOn.append lpStr_readsBackOn)
  apply @ReadsBackOn.comap _ _ _ _ _ _ (fun decimal : CanonicalDecimal ↦
    (decimal.negative, decimal.exponent, String.ofList decimal.digits)) hparts
  · intro decimal hfits
    exact ⟨trivial, hfits⟩
  · intro value other _ _ heq
    rcases Prod.mk.inj heq with ⟨hnegative, hrest⟩
    rcases Prod.mk.inj hrest with ⟨hexponent, hdigits⟩
    cases value
    cases other
    cases hnegative
    cases hexponent
    cases String.ofList_injective hdigits
    rfl

theorem canonValue_readsBackOn : ReadsBackOn CanonValue.Fits CanonValue.bytes := by
  intro value other hvalue hother rest left heq
  cases value with
  | null =>
      cases other with
      | null => exact ⟨rfl, (List.cons.inj heq).2⟩
      | _ => exact absurd (List.cons.inj heq).1 (by decide)
  | bool value =>
      cases other with
      | bool other =>
          rcases flag_readsBackOn _ _ trivial trivial _ _ (List.cons.inj heq).2 with ⟨rfl, hrest⟩
          exact ⟨rfl, hrest⟩
      | _ => exact absurd (List.cons.inj heq).1 (by decide)
  | number value =>
      cases other with
      | number other =>
          rcases decimal_readsBackOn _ _ hvalue hother _ _ (List.cons.inj heq).2 with ⟨rfl, hrest⟩
          exact ⟨rfl, hrest⟩
      | _ => exact absurd (List.cons.inj heq).1 (by decide)
  | string value =>
      cases other with
      | string other =>
          rcases lpStr_readsBackOn _ _ hvalue hother _ _ (List.cons.inj heq).2 with ⟨rfl, hrest⟩
          exact ⟨rfl, hrest⟩
      | _ => exact absurd (List.cons.inj heq).1 (by decide)

/-! ## Paths -/

def PathSegment.Below (limit : ℕ) : PathSegment → Prop
  | .key name => TextBelow limit name
  | .wildcard => True

/-- The bytes of a segment whose key is normalized already. -/
def segmentBytes : PathSegment → Bytes
  | .key name => 0 :: lpStr name
  | .wildcard => [1]

def pathBytes (path : List PathSegment) : Bytes := counted segmentBytes path

theorem segmentBytes_readsBackOn : ReadsBackOn (PathSegment.Below lengthLimit) segmentBytes := by
  intro value other hvalue hother rest left heq
  cases value with
  | key value =>
      cases other with
      | key other =>
          rcases lpStr_readsBackOn _ _ hvalue hother _ _ (List.cons.inj heq).2 with ⟨rfl, hrest⟩
          exact ⟨rfl, hrest⟩
      | wildcard => exact absurd (List.cons.inj heq).1 (by decide)
  | wildcard =>
      cases other with
      | key other => exact absurd (List.cons.inj heq).1 (by decide)
      | wildcard => exact ⟨rfl, (List.cons.inj heq).2⟩

def PathBelow (limit : ℕ) (path : List PathSegment) : Prop :=
  path.length < limit ∧ ∀ segment ∈ path, PathSegment.Below limit segment

theorem pathBytes_readsBackOn : ReadsBackOn (PathBelow lengthLimit) pathBytes :=
  counted_readsBackOn segmentBytes_readsBackOn

/-! ## Attributes -/

def MeaningCode.Below (limit : ℕ) (meaning : MeaningCode) : Prop :=
  TextBelow limit meaning.vocabulary ∧ TextBelow limit meaning.code

theorem encodeMeaningCode_readsBackOn :
    ReadsBackOn (MeaningCode.Below lengthLimit) encodeMeaningCode := by
  apply @ReadsBackOn.comap _ _ _ _ _ _ (fun meaning : MeaningCode ↦
    (meaning.vocabulary, meaning.code)) (lpStr_readsBackOn.append lpStr_readsBackOn)
  · intro meaning hshort
    exact hshort
  · intro value other _ _ heq
    cases value
    cases other
    cases heq
    rfl

theorem encodeUnit_readsBackOn :
    ReadsBackOn (fun unit : Umbrella.Unit ↦ TextBelow lengthLimit unit.code) encodeUnit := by
  rintro ⟨system, code⟩ ⟨system', code'⟩ hvalue hother rest left heq
  rcases List.cons.inj heq with ⟨htag, htail⟩
  rcases lpStr_readsBackOn _ _ hvalue hother _ _ htail with ⟨hcode, hrest⟩
  have hsystem : system = system' := by
    cases system <;> cases system' <;> first | rfl | cases htag
  dsimp only at hcode
  rw [hsystem, hcode]
  exact ⟨rfl, hrest⟩

def EpochBase.Below (limit : ℕ) : EpochBase → Prop
  | .unix => True
  | .registered code => TextBelow limit code

theorem encodeEpoch_readsBackOn : ReadsBackOn (EpochBase.Below lengthLimit) encodeEpoch := by
  intro value other hvalue hother rest left heq
  cases value with
  | unix =>
      cases other with
      | unix => exact ⟨rfl, (List.cons.inj heq).2⟩
      | registered other => exact absurd (List.cons.inj heq).1 (by decide)
  | registered value =>
      cases other with
      | unix => exact absurd (List.cons.inj heq).1 (by decide)
      | registered other =>
          rcases lpStr_readsBackOn _ _ hvalue hother _ _ (List.cons.inj heq).2 with ⟨rfl, hrest⟩
          exact ⟨rfl, hrest⟩

/-- One byte for each value of an enumeration. -/
theorem byte_readsBackOn {α : Type} {code : α → UInt8} (hcode : Function.Injective code) :
    ReadsBackOn (fun _ : α ↦ True) fun value ↦ [code value] := by
  intro value other _ _ rest left heq
  rcases List.cons.inj heq with ⟨hbyte, hrest⟩
  exact ⟨hcode hbyte, hrest⟩

theorem encodeTemporalKind_injective : Function.Injective encodeTemporalKind := by
  intro value other heq
  cases value <;> cases other <;> first | rfl | exact absurd heq (by decide)

theorem encodeTemporalResolution_injective : Function.Injective encodeTemporalResolution := by
  intro value other heq
  cases value <;> cases other <;> first | rfl | exact absurd heq (by decide)

/-- The bits of six optional attributes. -/
def bits (a b c d e f : Bool) : UInt8 :=
  (if a then 1 else 0) ||| (if b then 2 else 0) ||| (if c then 4 else 0) |||
    (if d then 8 else 0) ||| (if e then 16 else 0) ||| (if f then 32 else 0)

theorem bits_decode : ∀ a b c d e f,
    [1, 2, 4, 8, 16, 32].map (fun bit ↦ decide (bits a b c d e f &&& bit ≠ 0)) =
      [a, b, c, d, e, f] := by
  decide +kernel

theorem bits_inj {a b c d e f a' b' c' d' e' f' : Bool}
    (heq : bits a b c d e f = bits a' b' c' d' e' f') :
    [a, b, c, d, e, f] = [a', b', c', d', e', f'] := by
  rw [← bits_decode a b c d e f, heq, bits_decode]

theorem bits_eq_zero : ∀ a b c d e f, bits a b c d e f = 0 ↔
    a = false ∧ b = false ∧ c = false ∧ d = false ∧ e = false ∧ f = false := by
  decide +kernel

/-- The bytes of a temporal attribute of which something is there. -/
def temporalBytes (temporal : Temporal) : Bytes :=
  bits temporal.kind.isSome temporal.epoch.isSome temporal.resolution.isSome false false false ::
    (temporal.kind.elim [] (fun kind ↦ [encodeTemporalKind kind]) ++
      (temporal.epoch.elim [] encodeEpoch ++
        temporal.resolution.elim [] (fun resolution ↦ [encodeTemporalResolution resolution])))

/-- A temporal attribute of which nothing is there. -/
def emptyTemporal : Temporal := ⟨none, none, none⟩

theorem encodeTemporal_eq (temporal : Temporal) :
    encodeTemporal temporal =
      if temporal = emptyTemporal then none else some (temporalBytes temporal) := by
  have hbitmap : presence 1 temporal.kind ||| presence 2 temporal.epoch |||
      presence 4 temporal.resolution = bits temporal.kind.isSome temporal.epoch.isSome
        temporal.resolution.isSome false false false := by
    simp [bits, presence]
  have hempty : temporal = emptyTemporal ↔ bits temporal.kind.isSome temporal.epoch.isSome
      temporal.resolution.isSome false false false = 0 := by
    rcases temporal with ⟨kind, epoch, resolution⟩
    simp [bits_eq_zero, emptyTemporal]
  unfold encodeTemporal temporalBytes
  dsimp only
  rw [hbitmap]
  simp only [hempty]

def Temporal.Below (limit : ℕ) (temporal : Temporal) : Prop :=
  ∀ epoch ∈ temporal.epoch, EpochBase.Below limit epoch

theorem temporalBytes_readsBackOn : ReadsBackOn (Temporal.Below lengthLimit) temporalBytes := by
  intro value other hvalue hother rest left heq
  simp only [temporalBytes, List.cons_append, List.append_assoc, List.cons.injEq] at heq
  rcases heq with ⟨hbits, hbody⟩
  have hpresent := bits_inj hbits
  simp only [List.cons.injEq, and_true] at hpresent
  rcases (byte_readsBackOn encodeTemporalKind_injective).optional (by simp) (by simp)
    hpresent.1 hbody with ⟨hkind, hbody⟩
  rcases encodeEpoch_readsBackOn.optional hvalue hother hpresent.2.1 hbody with ⟨hepoch, hbody⟩
  rcases (byte_readsBackOn encodeTemporalResolution_injective).optional (by simp) (by simp)
    hpresent.2.2 hbody with ⟨hresolution, hrest⟩
  rcases value with ⟨kind, epoch, resolution⟩
  rcases other with ⟨kind', epoch', resolution'⟩
  dsimp only at hkind hepoch hresolution
  rw [hkind, hepoch, hresolution]
  exact ⟨rfl, hrest⟩

/-- What is written of the attributes of a field. -/
structure AttributeView where
  canonicalFieldId : Option String
  identifierNamespace : Option String
  unit : Option Umbrella.Unit
  numericScale : Option Int64
  temporal : Option Temporal
  enums : Option (List (Bytes × MeaningCode))

/-- The bytes of an enum value that fits and the code it maps to. -/
def EntryFits (entry : Bytes × MeaningCode) : Prop :=
  (∃ value, CanonValue.Fits value ∧ value.bytes = entry.1) ∧ MeaningCode.Below lengthLimit entry.2

def enumBytes (entries : List (Bytes × MeaningCode)) : Bytes :=
  counted (fun (valueBytes, meaning) ↦ valueBytes ++ encodeMeaningCode meaning) entries

theorem enumBytes_readsBackOn :
    ReadsBackOn (fun entries ↦ entries.length < lengthLimit ∧ ∀ entry ∈ entries, EntryFits entry)
      enumBytes :=
  counted_readsBackOn (canonValue_readsBackOn.codes.append encodeMeaningCode_readsBackOn)

namespace AttributeView

structure Fits (view : AttributeView) : Prop where
  canonicalFieldId : ∀ cfid ∈ view.canonicalFieldId, TextBelow lengthLimit cfid
  identifierNamespace : ∀ namespaceCode ∈ view.identifierNamespace,
    TextBelow lengthLimit namespaceCode
  unit : ∀ unit ∈ view.unit, TextBelow lengthLimit unit.code
  temporal : ∀ temporal ∈ view.temporal, Temporal.Below lengthLimit temporal
  enums : ∀ entries ∈ view.enums, entries.length < lengthLimit ∧ ∀ entry ∈ entries, EntryFits entry

def bitmap (view : AttributeView) : UInt8 :=
  bits view.canonicalFieldId.isSome view.identifierNamespace.isSome view.unit.isSome
    view.numericScale.isSome view.temporal.isSome view.enums.isSome

def bytes (view : AttributeView) : Bytes :=
  view.bitmap :: (view.canonicalFieldId.elim [] lpStr ++
    (view.identifierNamespace.elim [] lpStr ++
      (view.unit.elim [] encodeUnit ++
        (view.numericScale.elim [] (fun scale ↦ i64Bytes scale.toInt) ++
          (view.temporal.elim [] temporalBytes ++ view.enums.elim [] enumBytes)))))

theorem scale_readsBackOn :
    ReadsBackOn (fun _ : Int64 ↦ True) fun scale ↦ i64Bytes scale.toInt :=
  i64Bytes_readsBackOn.comap (fun scale _ ↦ ⟨scale.le_toInt, scale.toInt_lt⟩)
    fun _ _ _ _ heq ↦ Int64.toInt_inj.mp heq

theorem bytes_readsBackOn : ReadsBackOn Fits bytes := by
  intro value other hvalue hother rest left heq
  simp only [bytes, List.cons_append, List.append_assoc, List.cons.injEq] at heq
  rcases heq with ⟨hbits, hbody⟩
  have hpresent := bits_inj hbits
  simp only [List.cons.injEq, and_true] at hpresent
  rcases hpresent with ⟨hcfid, hnamespace, hunit, hscale, htemporal, henums⟩
  rcases lpStr_readsBackOn.optional hvalue.canonicalFieldId hother.canonicalFieldId hcfid hbody
    with ⟨hcfid, hbody⟩
  rcases lpStr_readsBackOn.optional hvalue.identifierNamespace hother.identifierNamespace
    hnamespace hbody with ⟨hnamespace, hbody⟩
  rcases encodeUnit_readsBackOn.optional hvalue.unit hother.unit hunit hbody with ⟨hunit, hbody⟩
  rcases scale_readsBackOn.optional (by simp) (by simp) hscale hbody with ⟨hscale, hbody⟩
  rcases temporalBytes_readsBackOn.optional hvalue.temporal hother.temporal htemporal hbody
    with ⟨htemporal, hbody⟩
  rcases enumBytes_readsBackOn.optional hvalue.enums hother.enums henums hbody
    with ⟨henums, hrest⟩
  rcases value with ⟨cfid, namespaceCode, unit, scale, temporal, enums⟩
  rcases other with ⟨cfid', namespaceCode', unit', scale', temporal', enums'⟩
  dsimp only at hcfid hnamespace hunit hscale htemporal henums
  rw [hcfid, hnamespace, hunit, hscale, htemporal, henums]
  exact ⟨rfl, hrest⟩

end AttributeView

end Deblob.Semantic.Canon
