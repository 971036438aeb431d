import Deblob.Fingerprint.Parse
import Deblob.Lib.PrefixCode
import Mathlib.Tactic.IntervalCases

/-!
# Escaped keys

The canonicalizer escapes a key with `write_json_string`; the parser decodes strings with
`scan_raw_string`. Scanning what was written gives the key back, whatever stands behind it.
-/

namespace Deblob.Fingerprint

open Core Lib
open Lib.Parser

/-- A lowercase hex digit. -/
def hexDigit (digit : ℕ) : UInt8 := (Nat.digitChar digit).toUInt8

/-- `{:04x}` of a number below 2^16. -/
def hex4 (value : ℕ) : List UInt8 :=
  [hexDigit (value / 4096 % 16), hexDigit (value / 256 % 16), hexDigit (value / 16 % 16),
    hexDigit (value % 16)]

def escapeChar (char : Char) : List UInt8 :=
  if char = '"' then ascii "\\\""
  else if char = '\\' then ascii "\\\\"
  else if char.toNat < 0x20 then ascii "\\u" ++ hex4 char.toNat
  else String.utf8EncodeChar char

def writeJsonString (text : String) : List UInt8 :=
  0x22 :: (text.toList.flatMap escapeChar ++ [0x22])

/-! ## Scanning -/

theorem readHexDigit_hexDigit {digit : ℕ} (hdigit : digit < 16) (rest : List UInt8) :
    readHexDigit (hexDigit digit :: rest) = .ok (digit, rest) := by
  interval_cases digit <;> rfl

theorem readHex_hexDigit {digit : ℕ} (hdigit : digit < 16) (digits value : ℕ)
    (rest : List UInt8) :
    readHex (digits + 1) value (hexDigit digit :: rest) =
      readHex digits (value * 16 + digit) rest := by
  change (readHexDigit (hexDigit digit :: rest) >>= fun pair ↦
    readHex digits (value * 16 + pair.1) pair.2) = _
  rw [readHexDigit_hexDigit hdigit]
  rfl

theorem readHex4_hex4 {value : ℕ} (hvalue : value < 2 ^ 16) (rest : List UInt8) :
    readHex4 (hex4 value ++ rest) = .ok (value, rest) := by
  have hdigit (digits : ℕ) : digits % 16 < 16 := Nat.mod_lt _ (by decide)
  have hsum : (((0 * 16 + value / 4096 % 16) * 16 + value / 256 % 16) * 16 + value / 16 % 16) * 16 +
      value % 16 = value := by
    omega
  unfold readHex4 hex4
  simp only [List.cons_append, List.nil_append, readHex_hexDigit (hdigit _), hsum]
  rfl

theorem ofUInt8_injective : Function.Injective Char.ofUInt8 := by
  intro left right heq
  exact UInt8.toNat_inj.mp (congrArg Char.toNat heq : left.toNat = right.toNat)

/-- A byte the scanner takes as it is. -/
def Plain (byte : UInt8) : Prop := byte ≠ 0x22 ∧ byte ≠ 0x5C ∧ ¬ byte < 0x20

theorem scanRawByte_plain {byte : UInt8} (hplain : Plain byte) (buf rest : List UInt8) :
    scanRawByte buf (byte :: rest) = .ok (.inl (buf ++ [byte]), rest) := by
  obtain ⟨hquote, hbackslash, hcontrol⟩ := hplain
  have hne {other : UInt8} (hother : byte ≠ other) : Char.ofUInt8 byte ≠ Char.ofUInt8 other :=
    fun heq ↦ hother (ofUInt8_injective heq)
  unfold scanRawByte
  change (ite (Char.ofUInt8 byte = Char.ofUInt8 0x22) _ _ : Parser (List UInt8 ⊕ List UInt8))
    rest = _
  rw [if_neg (hne hquote)]
  change (ite (Char.ofUInt8 byte = Char.ofUInt8 0x5C) _ _ : Parser (List UInt8 ⊕ List UInt8))
    rest = _
  rw [if_neg (hne hbackslash), if_neg hcontrol]
  rfl

theorem plain_ofNat {value : ℕ} (hsize : value < 256) (hcontrol : 0x20 ≤ value)
    (hquote : value ≠ 0x22) (hbackslash : value ≠ 0x5C) : Plain (UInt8.ofNat value) := by
  have htoNat : (UInt8.ofNat value).toNat = value := Nat.mod_eq_of_lt hsize
  refine ⟨fun heq ↦ hquote ?_, fun heq ↦ hbackslash ?_, fun hlt ↦ ?_⟩
  · rw [← htoNat, heq]
    rfl
  · rw [← htoNat, heq]
    rfl
  · have hlt : (UInt8.ofNat value).toNat < 0x20 := UInt8.lt_iff_toNat_lt.mp hlt
    omega

/-- A character outside the escaped ones is encoded in plain bytes. -/
theorem utf8EncodeChar_plain {char : Char} (hquote : char ≠ '"') (hbackslash : char ≠ '\\')
    (hcontrol : ¬ char.toNat < 0x20) : ∀ byte ∈ String.utf8EncodeChar char, Plain byte := by
  have hne {other : Char} (hother : char ≠ other) : char.toNat ≠ other.toNat :=
    fun heq ↦ hother (Char.toNat_inj.mp heq)
  have hhigh {value : ℕ} (hlow : 0x80 ≤ value) (hsize : value < 256) :
      Plain (UInt8.ofNat value) :=
    plain_ofNat hsize (by omega) (by omega) (by omega)
  unfold String.utf8EncodeChar
  dsimp only
  change ¬ char.val.toNat < 0x20 at hcontrol
  split_ifs with hone htwo hthree
  · simp only [List.forall_mem_singleton]
    exact plain_ofNat (by omega) (by omega) (hne hquote) (hne hbackslash)
  all_goals
    simp only [List.forall_mem_cons, List.not_mem_nil, false_imp_iff, implies_true, and_true]
  · exact ⟨hhigh (by omega) (by omega), hhigh (by omega) (by omega)⟩
  · exact ⟨hhigh (by omega) (by omega), hhigh (by omega) (by omega), hhigh (by omega) (by omega)⟩
  · exact ⟨hhigh (by omega) (by omega), hhigh (by omega) (by omega), hhigh (by omega) (by omega),
      hhigh (by omega) (by omega)⟩

theorem loop_scanRawByte_plain {bytes : List UInt8} (hbytes : ∀ byte ∈ bytes, Plain byte)
    (buf rest : List UInt8) :
    loop scanRawByte buf (bytes ++ rest) = loop scanRawByte (buf ++ bytes) rest := by
  induction bytes generalizing buf with
  | nil => rw [List.nil_append, List.append_nil]
  | cons byte bytes ih =>
      obtain ⟨hbyte, hbytes⟩ := List.forall_mem_cons.mp hbytes
      rw [List.cons_append, loop_of_inl consumes_scanRawByte (scanRawByte_plain hbyte buf _),
        ih hbytes, List.append_assoc, List.singleton_append]

theorem readUnicodeEscape_hex4 {char : Char} (hcontrol : char.toNat < 0x20) (rest : List UInt8) :
    readUnicodeEscape (hex4 char.toNat ++ rest) = .ok (char, rest) := by
  have hscalar : charFromU32 char.toNat = some char := by
    unfold charFromU32
    rw [dif_pos (show char.toNat.isValidChar from char.valid)]
    rfl
  change (readHex4 (hex4 char.toNat ++ rest) >>= _) = _
  rw [readHex4_hex4 (by omega)]
  change (if 0xD800 ≤ char.toNat ∧ char.toNat ≤ 0xDBFF then _ else _ : Parser Char) rest = _
  rw [if_neg (by omega), hscalar]
  rfl

/-- The rounds that read one escaped character add its bytes. -/
theorem loop_scanRawByte_escapeChar (char : Char) (buf rest : List UInt8) :
    loop scanRawByte buf (escapeChar char ++ rest) =
      loop scanRawByte (buf ++ String.utf8EncodeChar char) rest := by
  unfold escapeChar
  split_ifs with hquote hbackslash hcontrol
  · rw [hquote]
    exact loop_of_inl consumes_scanRawByte rfl
  · rw [hbackslash]
    exact loop_of_inl consumes_scanRawByte rfl
  · refine loop_of_inl consumes_scanRawByte ?_
    have hescape : readEscape (0x75 :: (hex4 char.toNat ++ rest)) =
        .ok (String.utf8EncodeChar char, rest) := by
      change (readUnicodeEscape (hex4 char.toNat ++ rest) >>= _) = _
      rw [readUnicodeEscape_hex4 hcontrol]
      rfl
    change (readEscape (0x75 :: (hex4 char.toNat ++ rest)) >>= _) = _
    rw [hescape]
    rfl
  · exact loop_scanRawByte_plain (utf8EncodeChar_plain hquote hbackslash hcontrol) buf rest

theorem loop_scanRawByte_flatMap (chars : List Char) (buf rest : List UInt8) :
    loop scanRawByte buf (chars.flatMap escapeChar ++ 0x22 :: rest) =
      .ok (buf ++ chars.flatMap String.utf8EncodeChar, rest) := by
  induction chars generalizing buf with
  | nil =>
      rw [List.flatMap_nil, List.flatMap_nil, List.append_nil]
      exact loop_of_inr consumes_scanRawByte rfl
  | cons char chars ih =>
      rw [List.flatMap_cons, List.append_assoc, loop_scanRawByte_escapeChar, ih,
        List.flatMap_cons, List.append_assoc]

theorem scanRawString_writeJsonString (text : String) (rest : List UInt8) :
    scanRawString (writeJsonString text ++ rest) = .ok (text, rest) := by
  have hloop : loop scanRawByte [] (text.toList.flatMap escapeChar ++ 0x22 :: rest) =
      .ok (text.toList.flatMap String.utf8EncodeChar, rest) :=
    loop_scanRawByte_flatMap text.toList [] rest
  have hutf8 : String.fromUTF8? (text.toList.flatMap String.utf8EncodeChar).toByteArray =
      some text := by
    change String.fromUTF8? text.toList.utf8Encode = some text
    rw [String.utf8Encode_toList, String.fromUTF8?, dif_pos text.isValidUTF8]
    rfl
  have hwrite : writeJsonString text ++ rest =
      0x22 :: (text.toList.flatMap escapeChar ++ 0x22 :: rest) := by
    simp [writeJsonString]
  rw [hwrite]
  change (loop scanRawByte [] (text.toList.flatMap escapeChar ++ 0x22 :: rest) >>= fun pair ↦
    orUtf8Error (String.fromUTF8? pair.1.toByteArray) pair.2) = _
  rw [hloop]
  change orUtf8Error (String.fromUTF8? _) rest = _
  rw [hutf8]
  rfl

theorem writeJsonString_readsBack (text : String) : ReadsBack writeJsonString text :=
  .of_decoder (fun bytes ↦ (scanRawString bytes).toOption)
    (fun text rest ↦ by rw [scanRawString_writeJsonString]; rfl) text

end Deblob.Fingerprint
