import Deblob.Fingerprint.KeyString
import Deblob.Fingerprint.NumberGrammar

/-!
# String literals

The scanner decodes byte by byte and checks the encoding of the result at the end. An escape adds
the whole code of a character, and no code begins inside another one, so the result is valid exactly
if every character of the literal is an escape or a valid code of its own.
-/

namespace Deblob.Fingerprint

open Core Lib
open Lib.Parser
open Lib.Json (Ws whitespace HexDigit Hex Hex4 shortEscapes Escape Unescaped Chars StringLiteral)

/-! ## Escapes -/

/-- The characters of a range, counted from its first one. -/
theorem eq_ofNat_of_range {low high char : Char} (hlow : low ≤ char) (hhigh : char ≤ high) :
    ∃ offset, offset ≤ high.toNat - low.toNat ∧ char.toNat - low.toNat = offset ∧
      char = Char.ofNat (low.toNat + offset) := by
  have hle : low.toNat ≤ char.toNat := hlow
  have hge : char.toNat ≤ high.toNat := hhigh
  refine ⟨char.toNat - low.toNat, by omega, rfl, ?_⟩
  rw [Nat.add_sub_cancel' hle, Char.ofNat_toNat]

theorem recognizes_readHexDigit :
    Recognizes (fun _ ↦ True) (fun text value ↦ ∃ char, text = [char] ∧ HexDigit char value)
      readHexDigit where
  sound rest value left hrun := by
    obtain ⟨_, _, ⟨⟩, hrun⟩ := bind_eq_ok.mp hrun
    cases rest with
    | nil => exact absurd hrun throw_ne_ok
    | cons byte rest =>
        have hdone (base : ℕ) {low high : Char} (hrange : low ≤ Char.ofUInt8 byte ∧
            Char.ofUInt8 byte ≤ high) (hascii : high.toNat < 128)
            (hdigits : ∀ offset ≤ high.toNat - low.toNat,
              HexDigit (Char.ofNat (low.toNat + offset)) (offset + base))
            (hvalue : (Char.ofUInt8 byte).toNat - low.toNat + base = value) (hleft : rest = left) :
            ∃ text, byte :: rest = encode text ++ left ∧
              ∃ char, text = [char] ∧ HexDigit char value := by
          obtain ⟨offset, hoffset, hsub, hchar⟩ := eq_ofNat_of_range hrange.1 hrange.2
          have hsmall : (Char.ofUInt8 byte).toNat < 128 := lt_of_le_of_lt hrange.2 hascii
          refine ⟨[Char.ofUInt8 byte], ?_, _, rfl, ?_⟩
          · rw [encode_cons_ascii hsmall, toUInt8_ofUInt8, hleft]
            rfl
          · rw [← hvalue, hsub, hchar]
            exact hdigits offset hoffset
        change (ite ('0' ≤ Char.ofUInt8 byte ∧ Char.ofUInt8 byte ≤ '9') _
          (ite ('a' ≤ Char.ofUInt8 byte ∧ Char.ofUInt8 byte ≤ 'f') _
            (ite ('A' ≤ Char.ofUInt8 byte ∧ Char.ofUInt8 byte ≤ 'F') _ _)) : Parser ℕ) rest = _
          at hrun
        split_ifs at hrun with hdecimal hlower hupper
        · obtain ⟨hvalue, hleft⟩ := pure_eq_ok.mp hrun
          exact hdone 0 hdecimal (by decide) (by decide) hvalue hleft
        · obtain ⟨hvalue, hleft⟩ := pure_eq_ok.mp hrun
          exact hdone 10 hlower (by decide) (by decide) hvalue hleft
        · obtain ⟨hvalue, hleft⟩ := pure_eq_ok.mp hrun
          exact hdone 10 hupper (by decide) (by decide) hvalue hleft
        · exact absurd hrun throw_ne_ok
  complete := by
    rintro _ value left ⟨char, rfl, hsmall, hchar⟩ -
    interval_cases value <;> rcases hchar with rfl | rfl <;> rfl

theorem recognizes_readHex (count value : ℕ) :
    Recognizes (fun _ ↦ True) (Hex count value) (readHex count value) := by
  induction count generalizing value with
  | zero =>
      refine (Recognizes.pure value).congr fun text result ↦ ⟨?_, ?_⟩
      · rintro ⟨rfl, rfl⟩
        exact .done
      · rintro ⟨⟩
        exact ⟨rfl, rfl⟩
  | succ count ih =>
      refine (recognizes_readHexDigit.bind (fun digit ↦ ih (value * 16 + digit))
        (fun _ _ _ _ _ _ _ _ ↦ trivial)).congr fun text result ↦ ⟨?_, ?_⟩
      · rintro ⟨_, digit, back, ⟨char, rfl, hdigit⟩, hback, rfl⟩
        exact .digit hdigit hback
      · intro hhex
        cases hhex with
        | @digit char digit _ _ _ rest hdigit hrest =>
            exact ⟨[char], digit, rest, ⟨char, rfl, hdigit⟩, hrest, rfl⟩

theorem charFromU32_eq_some {scalar : ℕ} {char : Char} :
    charFromU32 scalar = some char ↔ char.toNat = scalar := by
  unfold charFromU32
  constructor
  · intro hsome
    by_cases hvalid : scalar.isValidChar
    · rw [dif_pos hvalid] at hsome
      rw [← Option.some.inj hsome]
      rfl
    · rw [dif_neg hvalid] at hsome
      cases hsome
  · rintro rfl
    rw [dif_pos (show char.toNat.isValidChar from char.valid)]
    rfl

theorem orUtf8Error_eq_ok {α : Type} {value : Option α} {result : α} {rest left : List UInt8} :
    orUtf8Error value rest = .ok (result, left) ↔ value = some result ∧ rest = left := by
  cases value with
  | none => exact iff_of_false throw_ne_ok (by simp)
  | some value => exact pure_eq_ok.trans (by rw [Option.some.injEq])

theorem recognizes_readUnicodeEscape :
    Recognizes (fun _ ↦ True) (fun text char ↦ Escape ('u' :: text) char) readUnicodeEscape where
  sound rest char left hrun := by
    obtain ⟨hi, mid, hhigh, hrest⟩ := bind_eq_ok.mp hrun
    rcases (recognizes_readHex 4 0).sound _ _ _ hhigh with ⟨high, hfront, hhex⟩
    split_ifs at hrest with hhi
    · obtain ⟨_, _, hbackslash, hrest⟩ := bind_eq_ok.mp hrest
      obtain ⟨_, _, hmark, hrest⟩ := bind_eq_ok.mp hrest
      obtain ⟨lo, _, hlow, hrest⟩ := bind_eq_ok.mp hrest
      obtain ⟨_, _, hcheck, hrest⟩ := bind_eq_ok.mp hrest
      obtain ⟨hlo, rfl⟩ := require_eq_ok.mp hcheck
      obtain ⟨hchar, rfl⟩ := orUtf8Error_eq_ok.mp hrest
      rcases (recognizes_expect (by decide)).sound _ _ _ hbackslash with ⟨_, rfl, rfl⟩
      rcases (recognizes_expect (by decide)).sound _ _ _ hmark with ⟨_, rfl, rfl⟩
      rcases (recognizes_readHex 4 0).sound _ _ _ hlow with ⟨low, rfl, hlowHex⟩
      refine ⟨high ++ '\\' :: 'u' :: low, ?_, ?_⟩
      · rw [hfront]
        simp only [encode_append, encode_cons, encode_nil, List.append_assoc, List.append_nil]
      · exact .surrogates hhex hlowHex hhi hlo (charFromU32_eq_some.mp hchar)
    · obtain ⟨hchar, rfl⟩ := orUtf8Error_eq_ok.mp hrest
      obtain rfl := charFromU32_eq_some.mp hchar
      exact ⟨high, hfront, .scalar hhex⟩
  complete text char left htext _ := by
    apply bind_eq_ok.mpr
    cases htext with
    | short hshort => exact absurd hshort (by simp [shortEscapes])
    | scalar hdigits =>
        refine ⟨char.toNat, left, (recognizes_readHex 4 0).complete _ _ _ hdigits trivial, ?_⟩
        have hvalid : char.toNat < 0xD800 ∨ 0xDFFF < char.toNat ∧ char.toNat < 0x110000 :=
          char.valid
        rw [if_neg (by omega)]
        exact orUtf8Error_eq_ok.mpr ⟨charFromU32_eq_some.mpr rfl, rfl⟩
    | @surrogates high low hi lo _ hhigh hlow hhi hlo hchar =>
        refine ⟨hi, encode ('\\' :: 'u' :: low) ++ left, ?_, ?_⟩
        · rw [encode_append, List.append_assoc]
          exact (recognizes_readHex 4 0).complete _ _ _ hhigh trivial
        · rw [if_pos hhi]
          apply bind_eq_ok.mpr
          refine ⟨(), encode ('u' :: low) ++ left, ?_, ?_⟩
          · exact (recognizes_expect (by decide)).complete ['\\'] () _ rfl trivial
          · apply bind_eq_ok.mpr
            refine ⟨(), encode low ++ left, ?_, ?_⟩
            · exact (recognizes_expect (by decide)).complete ['u'] () _ rfl trivial
            · apply bind_eq_ok.mpr
              refine ⟨lo, left, (recognizes_readHex 4 0).complete _ _ _ hlow trivial, ?_⟩
              apply bind_eq_ok.mpr
              refine ⟨(), left, require_eq_ok.mpr ⟨hlo, rfl⟩, ?_⟩
              exact orUtf8Error_eq_ok.mpr ⟨charFromU32_eq_some.mpr hchar, rfl⟩

theorem recognizes_readEscape :
    Recognizes (fun _ ↦ True)
      (fun text bytes ↦ ∃ char, Escape text char ∧ bytes = String.utf8EncodeChar char)
      readEscape where
  sound rest bytes left hrun := by
    obtain ⟨_, _, hbump, hrest⟩ := bind_eq_ok.mp hrun
    obtain ⟨rfl, rfl⟩ := bump_eq_ok.mp hbump
    have hshort {mark char : Char} (hhead : rest.head?.map Char.ofUInt8 = some mark)
        (hpair : (mark, char) ∈ shortEscapes) (hbytes : String.utf8EncodeChar char = bytes)
        (hleft : rest.tail = left) :
        ∃ text, rest = encode text ++ left ∧
          ∃ char, Escape text char ∧ bytes = String.utf8EncodeChar char := by
      have hascii : ∀ pair ∈ shortEscapes, pair.1.toNat < 128 := by decide
      refine ⟨[mark], ?_, char, .short hpair, hbytes.symm⟩
      rw [← hleft]
      exact head_eq_some (hascii _ hpair) hhead
    have hcases {next : Parser (List UInt8)} (hrest : next rest.tail = .ok (bytes, left))
        (hnext : next = throw .parseError ∨
          (∃ mark char, rest.head?.map Char.ofUInt8 = some mark ∧ (mark, char) ∈ shortEscapes ∧
            next = pure (String.utf8EncodeChar char)) ∨
          rest.head?.map Char.ofUInt8 = some 'u' ∧
            next = (do return String.utf8EncodeChar (← readUnicodeEscape))) :
        ∃ text, rest = encode text ++ left ∧
          ∃ char, Escape text char ∧ bytes = String.utf8EncodeChar char := by
      rcases hnext with rfl | ⟨mark, char, hhead, hpair, rfl⟩ | ⟨hhead, rfl⟩
      · exact absurd hrest throw_ne_ok
      · obtain ⟨hbytes, hleft⟩ := pure_eq_ok.mp hrest
        exact hshort hhead hpair hbytes hleft
      · obtain ⟨char, _, hescape, hrest⟩ := bind_eq_ok.mp hrest
        obtain ⟨rfl, rfl⟩ := pure_eq_ok.mp hrest
        rcases recognizes_readUnicodeEscape.sound _ _ _ hescape with ⟨text, htail, htext⟩
        refine ⟨'u' :: text, ?_, char, htext, rfl⟩
        rw [head_eq_some (by decide) hhead, htail, ← List.append_assoc, ← encode_append]
        rfl
    refine hcases hrest ?_
    split
    · next hhead => exact .inr (.inl ⟨'"', '"', hhead, by decide, rfl⟩)
    · next hhead => exact .inr (.inl ⟨'\\', '\\', hhead, by decide, rfl⟩)
    · next hhead => exact .inr (.inl ⟨'/', '/', hhead, by decide, rfl⟩)
    · next hhead => exact .inr (.inl ⟨'b', '\x08', hhead, by decide, rfl⟩)
    · next hhead => exact .inr (.inl ⟨'f', '\x0c', hhead, by decide, rfl⟩)
    · next hhead => exact .inr (.inl ⟨'n', '\n', hhead, by decide, rfl⟩)
    · next hhead => exact .inr (.inl ⟨'r', '\r', hhead, by decide, rfl⟩)
    · next hhead => exact .inr (.inl ⟨'t', '\t', hhead, by decide, rfl⟩)
    · next hhead => exact .inr (.inr ⟨hhead, rfl⟩)
    · exact .inl rfl
  complete := by
    rintro text _ left ⟨char, htext, rfl⟩ -
    have hunicode (text : List Char) (htext : Escape ('u' :: text) char) :
        readEscape (encode ('u' :: text) ++ left) = .ok (String.utf8EncodeChar char, left) := by
      apply bind_eq_ok.mpr
      refine ⟨some 'u'.toUInt8, encode text ++ left, rfl, ?_⟩
      apply bind_eq_ok.mpr
      refine ⟨char, left, ?_, rfl⟩
      exact recognizes_readUnicodeEscape.complete text char left htext trivial
    cases htext with
    | short hshort =>
        have hall : ∀ pair ∈ shortEscapes, readEscape (encode [pair.1] ++ left) =
            .ok (String.utf8EncodeChar pair.2, left) := by
          simp only [shortEscapes, List.forall_mem_cons]
          exact ⟨rfl, rfl, rfl, rfl, rfl, rfl, rfl, rfl, fun _ hnone ↦ by cases hnone⟩
        exact hall _ hshort
    | scalar hdigits => exact hunicode _ (.scalar hdigits)
    | surrogates hhigh hlow hhi hlo hchar => exact hunicode _ (.surrogates hhigh hlow hhi hlo hchar)

/-! ## Scanning -/

/-- The bytes of a literal, with the bytes the scanner decodes them to. -/
inductive Scanned : List UInt8 → List UInt8 → Prop
  | nil : Scanned [] []
  | raw {byte : UInt8} {body decoded : List UInt8} (hplain : Plain byte)
      (hbody : Scanned body decoded) : Scanned (byte :: body) (byte :: decoded)
  | escape {text : List Char} {char : Char} {body decoded : List UInt8} (htext : Escape text char)
      (hbody : Scanned body decoded) :
      Scanned (0x5C :: (encode text ++ body)) (String.utf8EncodeChar char ++ decoded)

theorem scanRawByte_eq_ok {buf rest left : List UInt8} {outcome : List UInt8 ⊕ List UInt8}
    (hrun : scanRawByte buf rest = .ok (outcome, left)) :
    (rest = 0x22 :: left ∧ outcome = .inr buf) ∨
      (∃ byte, Plain byte ∧ rest = byte :: left ∧ outcome = .inl (buf ++ [byte])) ∨
      ∃ text char, Escape text char ∧ rest = 0x5C :: (encode text ++ left) ∧
        outcome = .inl (buf ++ String.utf8EncodeChar char) := by
  obtain ⟨_, _, ⟨⟩, hrun⟩ := bind_eq_ok.mp hrun
  cases rest with
  | nil => exact absurd hrun throw_ne_ok
  | cons byte rest =>
      have hbyte (code : UInt8) (hchar : Char.ofUInt8 byte = Char.ofUInt8 code) : byte = code :=
        ofUInt8_injective hchar
      change (ite (Char.ofUInt8 byte = '"') _ (ite (Char.ofUInt8 byte = '\\') _
        (ite (byte < 0x20) _ _)) : Parser (List UInt8 ⊕ List UInt8)) rest = _ at hrun
      split_ifs at hrun with hquote hbackslash hcontrol
      · obtain ⟨rfl, rfl⟩ := pure_eq_ok.mp hrun
        rw [hbyte 0x22 hquote]
        exact .inl ⟨rfl, rfl⟩
      · obtain ⟨bytes, _, hescape, hrun⟩ := bind_eq_ok.mp hrun
        obtain ⟨rfl, rfl⟩ := pure_eq_ok.mp hrun
        rcases recognizes_readEscape.sound _ _ _ hescape with ⟨text, rfl, char, htext, rfl⟩
        rw [hbyte 0x5C hbackslash]
        exact .inr (.inr ⟨text, char, htext, rfl, rfl⟩)
      · exact absurd hrun throw_ne_ok
      · obtain ⟨rfl, rfl⟩ := pure_eq_ok.mp hrun
        refine .inr (.inl ⟨byte, ⟨?_, ?_, hcontrol⟩, rfl, rfl⟩)
        · rintro rfl
          exact hquote rfl
        · rintro rfl
          exact hbackslash rfl

theorem loop_scanRawByte_sound {buf rest left out : List UInt8}
    (hrun : loop scanRawByte buf rest = .ok (out, left)) :
    ∃ body decoded, rest = body ++ 0x22 :: left ∧ Scanned body decoded ∧ out = buf ++ decoded := by
  refine loop_induct (motive := fun buf rest out left ↦ ∃ body decoded,
    rest = body ++ 0x22 :: left ∧ Scanned body decoded ∧ out = buf ++ decoded) ?_ ?_ hrun
  · intro buf rest out left hlast
    rcases scanRawByte_eq_ok hlast with ⟨rfl, ⟨⟩⟩ | ⟨_, _, _, ⟨⟩⟩ | ⟨_, _, _, _, ⟨⟩⟩
    exact ⟨[], [], rfl, .nil, (List.append_nil _).symm⟩
  · rintro buf rest next _ out left hround ⟨body, decoded, rfl, hbody, rfl⟩
    rcases scanRawByte_eq_ok hround with ⟨_, ⟨⟩⟩ | ⟨byte, hplain, rfl, ⟨⟩⟩ |
      ⟨text, char, htext, rfl, ⟨⟩⟩
    · exact ⟨byte :: body, byte :: decoded, rfl, .raw hplain hbody, by simp⟩
    · exact ⟨_, _, by simp, .escape htext hbody, by simp⟩

theorem loop_scanRawByte_complete {body decoded : List UInt8} (hbody : Scanned body decoded)
    (buf left : List UInt8) :
    loop scanRawByte buf (body ++ 0x22 :: left) = .ok (buf ++ decoded, left) := by
  induction hbody generalizing buf with
  | nil =>
      rw [List.append_nil]
      exact loop_of_inr consumes_scanRawByte rfl
  | raw hplain _ ih =>
      rw [List.cons_append, loop_of_inl consumes_scanRawByte (scanRawByte_plain hplain buf _), ih,
        List.append_assoc]
      rfl
  | @escape text char body decoded htext _ ih =>
      have hround : scanRawByte buf (0x5C :: (encode text ++ (body ++ 0x22 :: left))) =
          .ok (.inl (buf ++ String.utf8EncodeChar char), body ++ 0x22 :: left) := by
        change (readEscape (encode text ++ _) >>= _) = _
        rw [recognizes_readEscape.complete text _ _ ⟨char, htext, rfl⟩ trivial]
        rfl
      rw [List.cons_append, List.append_assoc, loop_of_inl consumes_scanRawByte hround, ih,
        List.append_assoc]

/-! ## Decoding -/

/-- Bytes that begin no code can only have been scanned as they are. -/
theorem Scanned.of_continuation {tail more body : List UInt8}
    (hscanned : Scanned body (tail ++ more)) (htail : ∀ byte ∈ tail, ¬ byte.IsUTF8FirstByte) :
    ∃ rest, body = tail ++ rest ∧ Scanned rest more ∧ ∀ byte ∈ tail, Plain byte := by
  induction tail generalizing body with
  | nil => exact ⟨body, rfl, hscanned, by simp⟩
  | cons byte tail ih =>
      obtain ⟨hbyte, htail⟩ := List.forall_mem_cons.mp htail
      rw [List.cons_append] at hscanned
      generalize hdecoded : byte :: (tail ++ more) = decoded at hscanned
      cases hscanned with
      | nil => cases hdecoded
      | raw hplain hrest =>
          cases hdecoded
          rcases ih hrest htail with ⟨rest, rfl, hmore, hall⟩
          exact ⟨rest, rfl, hmore, List.forall_mem_cons.mpr ⟨hplain, hall⟩⟩
      | @escape _ char _ _ _ _ =>
          obtain ⟨first, codeTail, hcode, hfirst, -⟩ := utf8EncodeChar_eq_cons char
          rw [hcode, List.cons_append] at hdecoded
          rw [(List.cons.inj hdecoded).1] at hbyte
          exact absurd hfirst hbyte

theorem unescaped_of_plain {char : Char}
    (hplain : ∀ byte ∈ String.utf8EncodeChar char, Plain byte) : Unescaped char := by
  have hascii (hsmall : char.toNat < 128) : Plain char.toUInt8 := by
    rw [utf8EncodeChar_ascii hsmall] at hplain
    exact hplain _ List.mem_cons_self
  refine ⟨?_, ?_, ?_⟩
  · by_contra hcontrol
    push Not at hcontrol
    apply (hascii (by omega)).2.2
    rw [UInt8.lt_iff_toNat_lt]
    change char.toNat % 256 < 32
    omega
  · rintro rfl
    exact (hascii (by decide)).1 rfl
  · rintro rfl
    exact (hascii (by decide)).2.1 rfl

/-- A scan with a valid result read a code or an escape for each character. -/
theorem Scanned.chars {body : List UInt8} {chars : List Char}
    (hscanned : Scanned body (encode chars)) : ∃ text, body = encode text ∧ Chars text chars := by
  induction chars generalizing body with
  | nil =>
      generalize hdecoded : encode [] = decoded at hscanned
      cases hscanned with
      | nil => exact ⟨[], rfl, .nil⟩
      | raw _ _ => cases hdecoded
      | escape _ _ =>
          have hempty := (List.append_eq_nil_iff.mp hdecoded.symm).1
          exact absurd hempty String.utf8EncodeChar_ne_nil
  | cons char chars ih =>
      generalize hdecoded : encode (char :: chars) = decoded at hscanned
      rw [encode_cons] at hdecoded
      cases hscanned with
      | nil => exact absurd (List.append_eq_nil_iff.mp hdecoded).1 String.utf8EncodeChar_ne_nil
      | @raw byte body decoded hplain hbody =>
          obtain ⟨first, tail, hcode, -, htail⟩ := utf8EncodeChar_eq_cons char
          rw [hcode, List.cons_append] at hdecoded
          obtain ⟨rfl, rfl⟩ := List.cons.inj hdecoded
          rcases hbody.of_continuation htail with ⟨rest, rfl, hrest, hall⟩
          rcases ih hrest with ⟨text, rfl, htext⟩
          have hunescaped : Unescaped char := by
            apply unescaped_of_plain
            rw [hcode]
            exact List.forall_mem_cons.mpr ⟨hplain, hall⟩
          refine ⟨char :: text, ?_, .unescaped hunescaped htext⟩
          rw [encode_cons, hcode]
          rfl
      | @escape text other body decoded htext hbody =>
          obtain ⟨rfl, rfl⟩ := utf8EncodeChar_append_inj hdecoded
          rcases ih hbody with ⟨rest, rfl, hrest⟩
          refine ⟨'\\' :: (text ++ rest), ?_, .escaped htext hrest⟩
          rw [encode_cons_ascii (by decide), encode_append]
          rfl

theorem scanned_of_plain {bytes body decoded : List UInt8} (hbytes : ∀ byte ∈ bytes, Plain byte)
    (hbody : Scanned body decoded) : Scanned (bytes ++ body) (bytes ++ decoded) := by
  induction bytes with
  | nil => exact hbody
  | cons byte bytes ih =>
      obtain ⟨hbyte, hbytes⟩ := List.forall_mem_cons.mp hbytes
      exact .raw hbyte (ih hbytes)

theorem scanned_of_chars {text chars : List Char} (htext : Chars text chars) :
    Scanned (encode text) (encode chars) := by
  induction htext with
  | nil => exact .nil
  | unescaped hchar _ ih =>
      obtain ⟨hcontrol, hquote, hbackslash⟩ := hchar
      exact scanned_of_plain (utf8EncodeChar_plain hquote hbackslash (by omega)) ih
  | escaped hescape _ ih =>
      rw [encode_cons_ascii (by decide), encode_append]
      exact .escape hescape ih

/-! ## Literals -/

theorem scanRawString_sound {rest left : List UInt8} {text : String}
    (hhead : rest.head?.map Char.ofUInt8 = some '"')
    (hrun : scanRawString rest = .ok (text, left)) :
    ∃ literal, rest = encode literal ++ left ∧ StringLiteral literal text := by
  obtain ⟨_, _, ⟨⟩, hrun⟩ := bind_eq_ok.mp hrun
  obtain ⟨out, _, hloop, hrun⟩ := bind_eq_ok.mp hrun
  obtain ⟨hdecode, rfl⟩ := orUtf8Error_eq_ok.mp hrun
  rcases loop_scanRawByte_sound hloop with ⟨body, decoded, htail, hscanned, rfl⟩
  rw [fromUTF8?_eq_some] at hdecode
  rw [hdecode] at hscanned
  rcases hscanned.chars with ⟨literal, rfl, hliteral⟩
  refine ⟨'"' :: (literal ++ ['"']), ?_, ?_⟩
  · rw [head_eq_some (by decide) hhead, htail]
    change _ = encode (['"'] ++ (literal ++ ['"'])) ++ _
    rw [encode_append, encode_append, List.append_assoc, List.append_assoc]
    rfl
  · have hstring := StringLiteral.mk hliteral
    rwa [String.ofList_toList] at hstring

theorem scanRawString_complete {literal : List Char} {text : String}
    (hliteral : StringLiteral literal text) (left : List UInt8) :
    scanRawString (encode literal ++ left) = .ok (text, left) := by
  cases hliteral with
  | @mk body chars hbody =>
      rw [encode_cons_ascii (by decide), encode_append, List.cons_append, List.append_assoc]
      apply bind_eq_ok.mpr
      refine ⟨_, encode body ++ 0x22 :: left, rfl, ?_⟩
      apply bind_eq_ok.mpr
      refine ⟨encode chars, left, loop_scanRawByte_complete (scanned_of_chars hbody) [] left, ?_⟩
      rw [orUtf8Error_eq_ok, fromUTF8?_eq_some, String.toList_ofList]
      exact ⟨rfl, rfl⟩

/-- A scanned literal is kept if its text is short enough. -/
theorem scanRawString_require_eq_ok {limit : ℕ} {err : QuarantineReason} {text : String}
    {rest left : List UInt8} :
    (do let text ← scanRawString; require (text.utf8ByteSize ≤ limit) err; return text :
        Parser String) rest = .ok (text, left) ↔
      scanRawString rest = .ok (text, left) ∧ text.utf8ByteSize ≤ limit := by
  constructor
  · intro hrun
    obtain ⟨_, _, hscan, hrun⟩ := bind_eq_ok.mp hrun
    obtain ⟨_, _, hcheck, hrun⟩ := bind_eq_ok.mp hrun
    obtain ⟨hlimit, rfl⟩ := require_eq_ok.mp hcheck
    obtain ⟨rfl, rfl⟩ := pure_eq_ok.mp hrun
    exact ⟨hscan, hlimit⟩
  · rintro ⟨hscan, hlimit⟩
    apply bind_eq_ok.mpr
    refine ⟨text, left, hscan, ?_⟩
    apply bind_eq_ok.mpr
    exact ⟨(), left, require_eq_ok.mpr ⟨hlimit, rfl⟩, rfl⟩

/-- A member's key with the white space in front of it. -/
theorem recognizes_memberKey (limits : Limits) :
    Recognizes (fun _ ↦ True)
      (fun text key ↦ ∃ before literal, Ws before ∧ StringLiteral literal key ∧
        key.utf8ByteSize ≤ limits.maxKeyLen ∧ text = before ++ literal) (memberKey limits) where
  sound rest key left hrun := by
    obtain ⟨_, mid, hspace, hrun⟩ := bind_eq_ok.mp hrun
    obtain ⟨_, _, hnext, hrun⟩ := bind_eq_ok.mp hrun
    obtain ⟨rfl, rfl⟩ := isNext_eq_ok.mp hnext
    obtain ⟨_, _, hcheck, hrun⟩ := bind_eq_ok.mp hrun
    obtain ⟨hquote, rfl⟩ := require_eq_ok.mp hcheck
    obtain ⟨hscan, hlimit⟩ := scanRawString_require_eq_ok.mp hrun
    rcases recognizes_skipWs.sound _ _ _ hspace with ⟨before, rfl, hbefore⟩
    rcases scanRawString_sound (of_decide_eq_true hquote) hscan with ⟨literal, rfl, hliteral⟩
    refine ⟨before ++ literal, ?_, before, literal, hbefore, hliteral, hlimit, rfl⟩
    rw [encode_append, List.append_assoc]
  complete := by
    rintro _ key left ⟨before, literal, hbefore, hliteral, hlimit, rfl⟩ -
    obtain ⟨tail, rfl⟩ : ∃ tail, literal = '"' :: tail := by
      cases hliteral with
      | mk _ => exact ⟨_, rfl⟩
    rw [encode_append, List.append_assoc]
    apply bind_eq_ok.mpr
    refine ⟨(), encode ('"' :: tail) ++ left, ?_, ?_⟩
    · apply recognizes_skipWs.complete before () _ hbefore
      exact notAhead_encode_cons (by decide) (by decide) tail left
    · apply bind_eq_ok.mpr
      refine ⟨_, _, isNext_eq_ok.mpr ⟨rfl, rfl⟩, ?_⟩
      apply bind_eq_ok.mpr
      refine ⟨(), _, require_eq_ok.mpr ⟨?_, rfl⟩, ?_⟩
      · exact decide_eq_true (head_encode_cons (by decide) tail left)
      · exact scanRawString_require_eq_ok.mpr ⟨scanRawString_complete hliteral left, hlimit⟩

theorem recognizes_colon :
    Recognizes (fun _ ↦ True) (fun text _ ↦ ∃ before, Ws before ∧ text = before ++ [':']) colon := by
  refine (recognizes_skipWs.bind (fun _ ↦ recognizes_expect (by decide)) ?_).congr fun text _ ↦ ?_
  · rintro _ _ _ _ left - rfl -
    exact notAhead_encode_cons (by decide) (by decide) [] left
  · constructor
    · rintro ⟨before, _, _, hbefore, rfl, rfl⟩
      exact ⟨before, hbefore, rfl⟩
    · rintro ⟨before, hbefore, rfl⟩
      exact ⟨before, (), _, hbefore, rfl, rfl⟩

end Deblob.Fingerprint
