import Mathlib.Algebra.Order.Group.Nat
import Mathlib.Data.List.Basic
import Mathlib.Data.String.Basic

/-!
# Characters in UTF-8

The bytes of a text, and how a text is found again in bytes: a code starts with a byte that no code
has at a later place, so two codes in front of the same bytes are the same.
-/

namespace Deblob.Lib

/-- The bytes of the characters of a text. -/
def encode (text : List Char) : List UInt8 := text.flatMap String.utf8EncodeChar

@[simp] theorem encode_nil : encode [] = [] := rfl

@[simp] theorem encode_append (front back : List Char) :
    encode (front ++ back) = encode front ++ encode back :=
  List.flatMap_append

theorem encode_cons (char : Char) (text : List Char) :
    encode (char :: text) = String.utf8EncodeChar char ++ encode text := rfl

/-! ## ASCII -/

theorem utf8EncodeChar_ascii {char : Char} (hascii : char.toNat < 128) :
    String.utf8EncodeChar char = [char.toUInt8] := by
  apply String.utf8EncodeChar_eq_singleton
  rw [Char.utf8Size_eq_one_iff]
  exact Nat.le_of_lt_succ hascii

theorem encode_cons_ascii {char : Char} (hascii : char.toNat < 128) (text : List Char) :
    encode (char :: text) = char.toUInt8 :: encode text := by
  rw [encode_cons, utf8EncodeChar_ascii hascii, List.singleton_append]

theorem ofUInt8_toUInt8 {char : Char} (hascii : char.toNat < 128) :
    Char.ofUInt8 char.toUInt8 = char := by
  apply Char.toNat_inj.mp
  change char.toUInt8.toNat = char.toNat
  change char.toNat % 256 = char.toNat
  omega

theorem toUInt8_ofUInt8 (byte : UInt8) : (Char.ofUInt8 byte).toUInt8 = byte := by
  apply UInt8.toNat_inj.mp
  change byte.toNat % 256 = byte.toNat
  have hbyte := byte.toNat_lt
  omega

/-! ## Bytes that are a text -/

def IsText (bytes : List UInt8) : Prop := ∃ text, bytes = encode text

theorem isText_nil : IsText [] := ⟨[], rfl⟩

theorem IsText.append {front back : List UInt8} (hfront : IsText front) (hback : IsText back) :
    IsText (front ++ back) := by
  rcases hfront with ⟨text, rfl⟩
  rcases hback with ⟨rest, rfl⟩
  exact ⟨text ++ rest, (encode_append text rest).symm⟩

theorem IsText.flatMap {α : Type*} {items : List α} {code : α → List UInt8}
    (hcode : ∀ item ∈ items, IsText (code item)) : IsText (items.flatMap code) := by
  induction items with
  | nil => exact isText_nil
  | cons item items ih =>
      rw [List.forall_mem_cons] at hcode
      rw [List.flatMap_cons]
      exact hcode.1.append (ih hcode.2)

theorem isText_of_ascii {bytes : List UInt8} (hascii : ∀ byte ∈ bytes, byte.toNat < 128) :
    IsText bytes := by
  refine ⟨bytes.map Char.ofUInt8, ?_⟩
  rw [encode, List.flatMap_map]
  calc bytes = bytes.map id := (List.map_id bytes).symm
    _ = bytes.flatMap fun byte ↦ [byte] := List.map_eq_flatMap
    _ = bytes.flatMap fun byte ↦ String.utf8EncodeChar (Char.ofUInt8 byte) := by
        refine List.flatMap_congr fun byte hbyte ↦ ?_
        have hchar : (Char.ofUInt8 byte).toNat < 128 := hascii byte hbyte
        rw [utf8EncodeChar_ascii hchar, toUInt8_ofUInt8]

/-! ## Finding a text -/

theorem encode_toByteArray (text : List Char) :
    (encode text).toByteArray = (String.ofList text).toByteArray :=
  rfl

theorem fromUTF8?_eq_some {bytes : List UInt8} {text : String} :
    String.fromUTF8? bytes.toByteArray = some text ↔ bytes = encode text.toList := by
  have hencode : (encode text.toList).toByteArray = text.toByteArray := by
    rw [encode_toByteArray, String.ofList_toList]
  rw [String.fromUTF8?]
  constructor
  · intro hdecode
    split_ifs at hdecode with hvalid
    cases hdecode
    apply List.toByteArray_inj.mp
    rw [hencode]
    rfl
  · rintro rfl
    rw [dif_pos (hencode ▸ text.isValidUTF8)]
    apply congrArg some
    apply String.toByteArray_inj.mp
    exact hencode

/-- The bytes of a text are read back as the text. -/
theorem IsText.exists_fromUTF8? {bytes : List UInt8} (hbytes : IsText bytes) :
    ∃ text : String, String.fromUTF8? bytes.toByteArray = some text ∧
      encode text.toList = bytes := by
  rcases hbytes with ⟨text, rfl⟩
  refine ⟨String.ofList text, fromUTF8?_eq_some.mpr ?_, ?_⟩ <;> rw [String.toList_ofList]

/-- A code is a first byte and bytes that are no first bytes. -/
theorem utf8EncodeChar_eq_cons (char : Char) :
    ∃ first tail, String.utf8EncodeChar char = first :: tail ∧ first.IsUTF8FirstByte ∧
      ∀ byte ∈ tail, ¬ byte.IsUTF8FirstByte := by
  have hfirst (index : ℕ) (hindex : index < (String.utf8EncodeChar char).length) :
      (String.utf8EncodeChar char)[index].IsUTF8FirstByte ↔ index = 0 :=
    UInt8.isUTF8FirstByte_getElem_utf8EncodeChar
  cases hcode : String.utf8EncodeChar char with
  | nil => exact absurd hcode String.utf8EncodeChar_ne_nil
  | cons first tail =>
      simp only [hcode] at hfirst
      refine ⟨first, tail, rfl, (hfirst 0 (by simp)).mpr rfl, ?_⟩
      intro byte hbyte
      obtain ⟨index, hindex, rfl⟩ := List.mem_iff_getElem.mp hbyte
      intro hbad
      exact absurd ((hfirst (index + 1) (by simpa using hindex)).mp hbad) (Nat.succ_ne_zero _)

/-- No code is the beginning of another one. -/
theorem utf8EncodeChar_append_inj {char other : Char} {rest more : List UInt8}
    (heq : String.utf8EncodeChar char ++ rest = String.utf8EncodeChar other ++ more) :
    char = other ∧ rest = more := by
  have hdecode (char : Char) (rest : List UInt8) :
      (String.utf8EncodeChar char ++ rest).toByteArray.utf8DecodeChar? 0 = some char := by
    rw [List.toByteArray_append, ← List.utf8Encode_singleton]
    exact List.utf8DecodeChar?_utf8Encode_singleton_append
  have hchar : char = other := by
    have hsome := (hdecode char rest).symm.trans (heq ▸ hdecode other more)
    exact Option.some.inj hsome
  refine ⟨hchar, ?_⟩
  rw [hchar] at heq
  exact List.append_cancel_left heq

theorem encode_injective : Function.Injective encode := by
  intro left right heq
  induction left generalizing right with
  | nil =>
      cases right with
      | nil => rfl
      | cons other right =>
          rw [encode_cons] at heq
          exact absurd (List.append_eq_nil_iff.mp heq.symm).1 String.utf8EncodeChar_ne_nil
  | cons char left ih =>
      cases right with
      | nil =>
          rw [encode_cons] at heq
          exact absurd (List.append_eq_nil_iff.mp heq).1 String.utf8EncodeChar_ne_nil
      | cons other right =>
          rcases utf8EncodeChar_append_inj heq with ⟨rfl, hrest⟩
          rw [ih hrest]

/-- Of two texts whose bytes begin alike one is the beginning of the other. -/
theorem prefix_or_prefix_of_encode {left right : List Char} {rest more : List UInt8}
    (heq : encode left ++ rest = encode right ++ more) : left <+: right ∨ right <+: left := by
  induction left generalizing right with
  | nil => exact .inl List.nil_prefix
  | cons char left ih =>
      cases right with
      | nil => exact .inr List.nil_prefix
      | cons other right =>
          rw [encode_cons, encode_cons, List.append_assoc, List.append_assoc] at heq
          obtain ⟨rfl, htail⟩ := utf8EncodeChar_append_inj heq
          exact (ih htail).imp (List.prefix_cons_inj char).mpr (List.prefix_cons_inj char).mpr

end Deblob.Lib
