import Deblob.Fingerprint.Parse
import Deblob.Lib.JsonGrammar
import Deblob.Lib.Recognizer
import Mathlib.Data.Bool.AllAny

/-!
# White space, literals and numbers

The scanners of the parser recognize the productions of the grammar. A number is followed by a byte
that cannot prolong it, and its text is the slice of the input it was read from.
-/

namespace Deblob.Fingerprint

open Core Lib
open Lib.Parser
open Lib.Json (Ws whitespace Digits SomeDigits Integer Fraction Exponent Number)

/-! ## Single bytes -/

theorem head_encode_cons {char : Char} (hascii : char.toNat < 128) (text : List Char)
    (left : List UInt8) :
    ((encode (char :: text) ++ left).head?).map Char.ofUInt8 = some char := by
  rw [encode_cons_ascii hascii, List.cons_append, List.head?_cons, Option.map_some,
    ofUInt8_toUInt8 hascii]

theorem isNext_eq_ok {char : Char} {rest left : List UInt8} {found : Bool} :
    isNext char rest = .ok (found, left) ↔
      found = decide (rest.head?.map Char.ofUInt8 = some char) ∧ rest = left := by
  change Except.ok (decide (rest.head?.map Char.ofUInt8 = some char), rest) = _ ↔ _
  rw [Except.ok.injEq, Prod.mk.injEq]
  exact and_congr_left' eq_comm

/-- A byte with the code of a character is the code of that character. -/
theorem head_eq_some {char : Char} (hascii : char.toNat < 128) {rest : List UInt8}
    (hhead : rest.head?.map Char.ofUInt8 = some char) : rest = encode [char] ++ rest.tail := by
  cases rest with
  | nil => cases hhead
  | cons byte rest =>
      obtain rfl : Char.ofUInt8 byte = char := Option.some.inj hhead
      rw [encode_cons_ascii hascii, toUInt8_ofUInt8]
      rfl

theorem recognizes_expect {char : Char} (hascii : char.toNat < 128) :
    Recognizes (fun _ ↦ True) (fun text _ ↦ text = [char]) (expect char) where
  sound rest _ left hrun := by
    obtain ⟨next, mid, hbump, hcheck⟩ := bind_eq_ok.mp hrun
    obtain ⟨rfl, rfl⟩ := bump_eq_ok.mp hbump
    obtain ⟨hhead, rfl⟩ := require_eq_ok.mp hcheck
    exact ⟨[char], head_eq_some hascii hhead, rfl⟩
  complete := by
    rintro _ ⟨⟩ left rfl -
    apply bind_eq_ok.mpr
    refine ⟨some char.toUInt8, left, ?_, require_eq_ok.mpr ⟨?_, rfl⟩⟩
    · rw [encode_cons_ascii hascii]
      rfl
    · rw [Option.map_some, ofUInt8_toUInt8 hascii]

theorem recognizes_skipOptional {chars : List Char} (hascii : ∀ char ∈ chars, char.toNat < 128) :
    Recognizes (NotAhead fun byte ↦ Char.ofUInt8 byte ∈ chars)
      (fun text _ ↦ text ∈ [] :: chars.map fun char ↦ [char]) (skipOptional chars) where
  sound rest _ left hrun := by
    obtain ⟨_, _, ⟨⟩, hrun⟩ := bind_eq_ok.mp hrun
    cases rest with
    | nil =>
        obtain ⟨-, rfl⟩ := pure_eq_ok.mp hrun
        exact ⟨[], rfl, List.mem_cons_self⟩
    | cons byte rest =>
        change (ite (Char.ofUInt8 byte ∈ chars) (bump >>= fun _ ↦ pure ()) (pure ()) : Parser Unit)
          (byte :: rest) = _ at hrun
        split_ifs at hrun with hmem
        · obtain ⟨_, _, ⟨⟩, hrun⟩ := bind_eq_ok.mp hrun
          obtain ⟨-, rfl⟩ := pure_eq_ok.mp hrun
          refine ⟨[Char.ofUInt8 byte], ?_, List.mem_cons_of_mem _ (List.mem_map_of_mem hmem)⟩
          rw [encode_cons_ascii (hascii _ hmem), toUInt8_ofUInt8]
          rfl
        · obtain ⟨-, rfl⟩ := pure_eq_ok.mp hrun
          exact ⟨[], rfl, List.mem_cons_self⟩
  complete text _ left htext hleft := by
    apply bind_eq_ok.mpr
    refine ⟨_, _, rfl, ?_⟩
    rcases List.mem_cons.mp htext with rfl | htext
    · cases left with
      | nil => rfl
      | cons byte left =>
          have hnot : Char.ofUInt8 byte ∉ chars := of_decide_eq_false (hleft byte rfl)
          change (ite (Char.ofUInt8 byte ∈ chars) _ _ : Parser Unit) (byte :: left) = _
          rw [if_neg hnot]
          rfl
    · obtain ⟨char, hchar, rfl⟩ := List.mem_map.mp htext
      have hmem : Char.ofUInt8 char.toUInt8 ∈ chars := by
        rwa [ofUInt8_toUInt8 (hascii char hchar)]
      rw [encode_cons_ascii (hascii char hchar)]
      change (ite (Char.ofUInt8 char.toUInt8 ∈ chars) _ _ : Parser Unit) _ = _
      rw [if_pos hmem]
      rfl

/-! ## White space and literals -/

theorem whitespace_ascii : ∀ char ∈ whitespace, char.toNat < 128 :=
  List.all_iff_forall_prop.mp (by decide)

theorem isWs_toUInt8 {char : Char} (hascii : char.toNat < 128) :
    isWs char.toUInt8 ↔ char ∈ whitespace := by
  rw [isWs, ofUInt8_toUInt8 hascii, decide_eq_true_iff]
  rfl

theorem recognizes_skipWs : Recognizes (NotAhead isWs) (fun text _ ↦ Ws text) skipWs := by
  have hkept (byte : UInt8) (hbyte : isWs byte) : byte.toNat < 128 :=
    whitespace_ascii _ (of_decide_eq_true hbyte)
  refine (recognizes_skipWhile hkept).congr fun text _ ↦ forall₂_congr fun char _ ↦ ?_
  constructor
  · rintro ⟨hascii, hkeep⟩
    exact (isWs_toUInt8 hascii).mp hkeep
  · intro hmem
    have hascii := whitespace_ascii char hmem
    exact ⟨hascii, (isWs_toUInt8 hascii).mpr hmem⟩

theorem ascii_eq_encode {text : String} (hascii : ∀ char ∈ text.toList, char.toNat < 128) :
    ascii text = encode text.toList := by
  unfold ascii encode
  rw [List.map_eq_flatMap]
  apply List.flatMap_congr
  intro char hchar
  exact (utf8EncodeChar_ascii (hascii char hchar)).symm

theorem keyword_ascii : ∀ keyword ∈ ["true", "false", "null"], ∀ char ∈ keyword.toList,
    char.toNat < 128 := by
  simp only [List.forall_mem_cons]
  refine ⟨?_, ?_, ?_, by simp⟩ <;> exact List.all_iff_forall_prop.mp (by decide)

theorem recognizes_parseLiteral {α : Type} {keyword : String}
    (hkeyword : keyword ∈ ["true", "false", "null"]) (node : α) :
    Recognizes (fun _ ↦ True) (fun text value ↦ text = keyword.toList ∧ value = node)
      (parseLiteral keyword node) := by
  have hascii := keyword_ascii keyword hkeyword
  have hskip : Recognizes (fun _ ↦ True) (fun text _ ↦ text = keyword.toList)
      (skipLiteral keyword) := by
    refine ⟨fun rest _ left hrun ↦ ?_, ?_⟩
    · unfold skipLiteral at hrun
      split_ifs at hrun with hstart
      obtain ⟨tail, rfl⟩ := List.isPrefixOf_iff_prefix.mp hstart
      obtain rfl : tail = left := by simpa using hrun
      exact ⟨keyword.toList, by rw [ascii_eq_encode hascii], rfl⟩
    · rintro _ ⟨⟩ left rfl -
      unfold skipLiteral
      rw [← ascii_eq_encode hascii, if_pos (List.isPrefixOf_iff_prefix.mpr ⟨left, rfl⟩)]
      simp
  refine (hskip.map fun _ ↦ node).congr fun text value ↦ ?_
  simp

/-! ## Digits -/

theorem isDigit_ascii {char : Char} (hdigit : char.isDigit) : char.toNat < 128 := by
  simp only [Char.isDigit, Bool.and_eq_true, decide_eq_true_eq] at hdigit
  have hhigh : char.val.toNat ≤ 57 := hdigit.2
  change char.val.toNat < 128
  omega

theorem isDigit_toUInt8 {char : Char} (hdigit : char.isDigit) : isDigit char.toUInt8 := by
  rw [isDigit, ofUInt8_toUInt8 (isDigit_ascii hdigit)]
  exact hdigit

theorem recognizes_digits :
    Recognizes (NotAhead isDigit) (fun text _ ↦ Digits text)
      (Parser.skipWhile isDigit : Parser Unit) := by
  have hkept (byte : UInt8) (hbyte : isDigit byte) : byte.toNat < 128 :=
    @isDigit_ascii (Char.ofUInt8 byte) hbyte
  refine (recognizes_skipWhile hkept).congr fun text _ ↦ forall₂_congr fun char _ ↦ ?_
  constructor
  · rintro ⟨hascii, hkeep⟩
    rw [← ofUInt8_toUInt8 hascii]
    exact hkeep
  · intro hdigit
    exact ⟨isDigit_ascii hdigit, isDigit_toUInt8 hdigit⟩

theorem recognizes_skipDigits :
    Recognizes (NotAhead isDigit) (fun text _ ↦ SomeDigits text) skipDigits where
  sound rest _ left hrun := by
    obtain ⟨_, _, ⟨⟩, hrun⟩ := bind_eq_ok.mp hrun
    obtain ⟨_, _, hcheck, hrun⟩ := bind_eq_ok.mp hrun
    obtain ⟨hhead, rfl⟩ := require_eq_ok.mp hcheck
    rcases recognizes_digits.sound rest () left hrun with ⟨text, hrest, htext⟩
    refine ⟨text, hrest, ?_, htext⟩
    rintro rfl
    -- the byte ahead is a digit, so the loop takes it
    obtain rfl : rest.dropWhile isDigit = left := congrArg Prod.snd (Except.ok.inj hrun)
    cases rest with
    | nil => cases hhead
    | cons byte rest =>
        have hlength := (List.dropWhile_sublist isDigit (l := rest)).length_le
        rw [List.dropWhile_cons_of_pos (by simpa using hhead)] at hrest
        have hsame := congrArg List.length hrest
        simp only [encode_nil, List.nil_append, List.length_cons] at hsame
        omega
  complete text _ left htext hleft := by
    apply bind_eq_ok.mpr
    refine ⟨_, _, rfl, ?_⟩
    apply bind_eq_ok.mpr
    refine ⟨(), _, require_eq_ok.mpr ⟨?_, rfl⟩, recognizes_digits.complete text () left htext.2 hleft⟩
    cases text with
    | nil => exact absurd rfl htext.1
    | cons char text =>
        have hdigit := htext.2 char List.mem_cons_self
        rw [encode_cons_ascii (isDigit_ascii hdigit), List.cons_append]
        exact isDigit_toUInt8 hdigit

/-! ## Numbers -/

/-- What follows the sign of an integer. -/
def skipUnsigned : Option UInt8 → Parser Unit
  | some byte =>
    if Char.ofUInt8 byte = '0' then pure ()
    else if isDigit byte then Parser.skipWhile isDigit
    else throw .parseError
  | none => throw .parseError

theorem skipInteger_eq :
    skipInteger = skipOptional ['-'] >>= fun _ ↦ bump >>= skipUnsigned := by
  unfold skipInteger
  congr 1

theorem recognizes_skipInteger :
    Recognizes (NotAhead isDigit)
      (fun text _ ↦ ∃ sign integer, sign ∈ [[], ['-']] ∧ Integer integer ∧ text = sign ++ integer)
      skipInteger := by
  have hsign : Recognizes (NotAhead fun byte ↦ Char.ofUInt8 byte ∈ ['-'])
      (fun text _ ↦ text ∈ [[], ['-']]) (skipOptional ['-']) :=
    recognizes_skipOptional (List.all_iff_forall_prop.mp (by decide))
  have hunsigned : Recognizes (NotAhead isDigit) (fun text _ ↦ Integer text)
      (bump >>= skipUnsigned) := by
    refine ⟨fun rest _ left hrun ↦ ?_, fun text _ left htext hleft ↦ ?_⟩
    · obtain ⟨_, _, ⟨⟩, hrun⟩ := bind_eq_ok.mp hrun
      cases rest with
      | nil => exact absurd hrun throw_ne_ok
      | cons byte rest =>
          change (ite (Char.ofUInt8 byte = '0') _ (ite (isDigit byte) _ _) : Parser Unit) rest = _
            at hrun
          split_ifs at hrun with hzero hdigit
          · obtain ⟨-, rfl⟩ := pure_eq_ok.mp hrun
            have hhead : (byte :: rest).head?.map Char.ofUInt8 = some '0' := congrArg some hzero
            exact ⟨['0'], head_eq_some (by decide) hhead, .zero⟩
          · rcases recognizes_digits.sound rest () left hrun with ⟨digits, rfl, hdigits⟩
            refine ⟨Char.ofUInt8 byte :: digits, ?_, .nonzero hdigit hzero hdigits⟩
            rw [encode_cons_ascii (isDigit_ascii hdigit), toUInt8_ofUInt8]
            rfl
          · exact absurd hrun throw_ne_ok
    · apply bind_eq_ok.mpr
      cases htext with
      | zero => exact ⟨_, _, rfl, rfl⟩
      | @nonzero first rest hfirst hnonzero hrest =>
          refine ⟨_, _, rfl, ?_⟩
          have hascii := isDigit_ascii hfirst
          rw [encode_cons_ascii hascii]
          change (ite (Char.ofUInt8 first.toUInt8 = '0') _ (ite (isDigit first.toUInt8) _ _) :
            Parser Unit) (encode rest ++ left) = _
          rw [ofUInt8_toUInt8 hascii, if_neg hnonzero, if_pos (isDigit_toUInt8 hfirst)]
          exact recognizes_digits.complete rest () left hrest hleft
  rw [skipInteger_eq]
  refine (hsign.bind (fun _ ↦ hunsigned) ?_).congr fun text _ ↦ ?_
  · intro _ _ integer _ left _ hinteger _
    obtain ⟨first, rest, rfl, hfirst⟩ := hinteger.eq_cons
    have hascii := isDigit_ascii hfirst
    apply notAhead_encode_cons hascii
    rw [ofUInt8_toUInt8 hascii]
    apply decide_eq_false
    rintro hmem
    rw [List.mem_singleton.mp hmem] at hfirst
    cases hfirst
  · constructor
    · rintro ⟨front, _, back, hfront, hback, heq⟩
      exact ⟨front, back, hfront, hback, heq⟩
    · rintro ⟨front, back, hfront, hback, heq⟩
      exact ⟨front, (), back, hfront, hback, heq⟩

theorem recognizes_skipFraction :
    Recognizes (NotAhead fun byte ↦ isDigit byte || Char.ofUInt8 byte = '.')
      (fun text _ ↦ Fraction text) skipFraction where
  sound rest _ left hrun := by
    obtain ⟨found, _, hnext, hrun⟩ := bind_eq_ok.mp hrun
    obtain ⟨rfl, rfl⟩ := isNext_eq_ok.mp hnext
    split_ifs at hrun with hpoint
    · obtain ⟨_, _, ⟨⟩, hrun⟩ := bind_eq_ok.mp hrun
      rcases recognizes_skipDigits.sound _ () left hrun with ⟨digits, htail, hdigits⟩
      refine ⟨'.' :: digits, ?_, .present hdigits⟩
      rw [head_eq_some (by decide) (of_decide_eq_true hpoint), htail, encode_cons_ascii (by decide)]
      rfl
    · obtain ⟨-, rfl⟩ := pure_eq_ok.mp hrun
      exact ⟨[], rfl, .absent⟩
  complete text _ left htext hleft := by
    apply bind_eq_ok.mpr
    refine ⟨_, _, isNext_eq_ok.mpr ⟨rfl, rfl⟩, ?_⟩
    cases htext with
    | absent =>
        rw [encode_nil, List.nil_append, if_neg]
        · rfl
        · rw [decide_eq_true_iff]
          intro hpoint
          obtain ⟨byte, hbyte, hchar⟩ := Option.map_eq_some_iff.mp hpoint
          have hnot := hleft byte hbyte
          simp [hchar] at hnot
    | @present digits hdigits =>
        rw [if_pos (decide_eq_true (head_encode_cons (by decide) digits left)),
          encode_cons_ascii (by decide)]
        apply recognizes_skipDigits.complete digits () left hdigits
        exact hleft.mono fun byte hbyte ↦ by simp [hbyte]

theorem recognizes_signedDigits :
    Recognizes (NotAhead isDigit)
      (fun text _ ↦ ∃ sign digits, sign ∈ [[], ['+'], ['-']] ∧ SomeDigits digits ∧
        text = sign ++ digits) (do skipOptional ['+', '-']; skipDigits : Parser Unit) := by
  have hsign : Recognizes (NotAhead fun byte ↦ Char.ofUInt8 byte ∈ ['+', '-'])
      (fun text _ ↦ text ∈ [[], ['+'], ['-']]) (skipOptional ['+', '-']) :=
    recognizes_skipOptional (List.all_iff_forall_prop.mp (by decide))
  refine (hsign.bind (fun _ ↦ recognizes_skipDigits) ?_).congr fun text _ ↦ ?_
  · intro _ _ digits _ left _ hdigits _
    cases digits with
    | nil => exact absurd rfl hdigits.1
    | cons first digits =>
        have hfirst := hdigits.2 first List.mem_cons_self
        have hascii := isDigit_ascii hfirst
        apply notAhead_encode_cons hascii
        rw [ofUInt8_toUInt8 hascii]
        apply decide_eq_false
        intro hmem
        rcases List.mem_pair.mp hmem with rfl | rfl <;> cases hfirst
  · exact ⟨fun ⟨front, _, back, hfront, hback, heq⟩ ↦ ⟨front, back, hfront, hback, heq⟩,
      fun ⟨front, back, hfront, hback, heq⟩ ↦ ⟨front, (), back, hfront, hback, heq⟩⟩

/-- The two spellings of the mark of an exponent are one case. -/
theorem skipExponent_eq :
    skipExponent = (do
      let next ← peek
      if next.map Char.ofUInt8 ∈ ['e', 'E'].map some then
        let _ ← bump
        skipOptional ['+', '-']
        skipDigits
      else pure ()) := by
  unfold skipExponent
  refine bind_congr fun next ↦ ?_
  split
  · next heq => rw [heq, if_pos (by decide)]
  · next heq => rw [heq, if_pos (by decide)]
  · next hlower hupper =>
      rw [if_neg]
      intro hmem
      rcases List.mem_pair.mp hmem with heq | heq
      · exact hlower heq
      · exact hupper heq

theorem recognizes_skipExponent :
    Recognizes (NotAhead fun byte ↦ isDigit byte || decide (Char.ofUInt8 byte ∈ ['e', 'E']))
      (fun text _ ↦ Exponent text) skipExponent := by
  have hascii : ∀ mark ∈ ['e', 'E'], mark.toNat < 128 :=
    List.all_iff_forall_prop.mp (by decide)
  rw [skipExponent_eq]
  constructor
  · intro rest _ left hrun
    obtain ⟨_, _, ⟨⟩, hrun⟩ := bind_eq_ok.mp hrun
    split_ifs at hrun with hhead
    · obtain ⟨_, _, ⟨⟩, hrun⟩ := bind_eq_ok.mp hrun
      obtain ⟨mark, hmark, hhead⟩ := List.mem_map.mp hhead
      rcases recognizes_signedDigits.sound _ () left hrun with
        ⟨_, htail, sign, digits, hsign, hdigits, rfl⟩
      refine ⟨mark :: (sign ++ digits), ?_, .present hmark hsign hdigits⟩
      rw [head_eq_some (hascii mark hmark) hhead.symm, htail, ← List.append_assoc, ← encode_append]
      rfl
    · obtain ⟨-, rfl⟩ := pure_eq_ok.mp hrun
      exact ⟨[], rfl, .absent⟩
  · intro text _ left htext hleft
    apply bind_eq_ok.mpr
    refine ⟨_, _, rfl, ?_⟩
    cases htext with
    | absent =>
        rw [if_neg]
        · rfl
        · intro hhead
          obtain ⟨mark, hmark, hhead⟩ := List.mem_map.mp hhead
          obtain ⟨byte, hbyte, rfl⟩ := Option.map_eq_some_iff.mp hhead.symm
          have hnot := hleft byte hbyte
          simp only [decide_eq_true hmark, Bool.or_true] at hnot
          cases hnot
    | @present mark sign digits hmark hsign hdigits =>
        rw [head_encode_cons (hascii mark hmark), if_pos (List.mem_map_of_mem hmark)]
        apply bind_eq_ok.mpr
        refine ⟨_, _, rfl, ?_⟩
        rw [encode_cons_ascii (hascii mark hmark)]
        apply recognizes_signedDigits.complete _ () left ⟨sign, digits, hsign, hdigits, rfl⟩
        exact hleft.mono fun byte hbyte ↦ by simp [hbyte]

/-- The bytes that could prolong a number. -/
def numberByte (byte : UInt8) : Bool := isDigit byte || decide (Char.ofUInt8 byte ∈ ['.', 'e', 'E'])

theorem notAhead_fraction {text : List Char} (htext : Fraction text) {left : List UInt8}
    (hleft : NotAhead isDigit left) : NotAhead isDigit (encode text ++ left) := by
  cases htext with
  | absent => exact hleft
  | present _ => exact notAhead_encode_cons (by decide) (by decide) _ _

theorem notAhead_exponent {keep : UInt8 → Bool} {text : List Char} (htext : Exponent text)
    {left : List UInt8} (hleft : NotAhead keep left)
    (hmarks : keep 'e'.toUInt8 = false ∧ keep 'E'.toUInt8 = false) :
    NotAhead keep (encode text ++ left) := by
  cases htext with
  | absent => exact hleft
  | present hmark _ _ =>
      rcases List.mem_pair.mp hmark with rfl | rfl
      · exact notAhead_encode_cons (by decide) hmarks.1 _ _
      · exact notAhead_encode_cons (by decide) hmarks.2 _ _

theorem recognizes_skipNumber :
    Recognizes (NotAhead numberByte) (fun text _ ↦ Number text)
      (do skipInteger; skipFraction; skipExponent : Parser Unit) := by
  have hdecimal := recognizes_skipFraction.bind (fun _ ↦ recognizes_skipExponent.narrow fun left
    (hleft : NotAhead numberByte left) ↦ hleft.mono ?_) ?_
  · refine (recognizes_skipInteger.bind (fun _ ↦ hdecimal) ?_).congr fun text _ ↦ ?_
    · rintro _ _ _ _ left - ⟨fraction, _, exponent, hfraction, hexponent, rfl⟩ hleft
      rw [encode_append, List.append_assoc]
      apply notAhead_fraction hfraction
      apply notAhead_exponent hexponent (hleft.mono ?_) (by decide)
      intro byte hbyte
      simp [numberByte, hbyte]
    · constructor
      · rintro ⟨_, _, _, ⟨sign, integer, hsign, hinteger, rfl⟩,
          ⟨fraction, _, exponent, hfraction, hexponent, rfl⟩, rfl⟩
        rw [List.append_assoc]
        exact .mk hsign hinteger hfraction hexponent
      · rintro @⟨sign, integer, fraction, exponent, hsign, hinteger, hfraction, hexponent⟩
        exact ⟨sign ++ integer, (), fraction ++ exponent, ⟨sign, integer, hsign, hinteger, rfl⟩,
          ⟨fraction, (), exponent, hfraction, hexponent, rfl⟩, (List.append_assoc ..).symm⟩
  · intro byte hbyte
    rcases Bool.or_eq_true_iff.mp hbyte with hdigit | hmark
    · simp [numberByte, hdigit]
    · have hmem := List.mem_cons_of_mem '.' (of_decide_eq_true hmark)
      simp only [numberByte, decide_eq_true hmem, Bool.or_true]
  · intro _ _ exponent _ left _ hexponent hleft
    apply notAhead_exponent hexponent (hleft.mono ?_) (by decide)
    intro byte hbyte
    rcases Bool.or_eq_true_iff.mp hbyte with hdigit | hpoint
    · simp [numberByte, hdigit]
    · simp [numberByte, of_decide_eq_true hpoint]

theorem parseNumber_eq_ok {rest left : List UInt8} {text : String} :
    parseNumber rest = .ok (text, left) ↔
      (do skipInteger; skipFraction; skipExponent : Parser Unit) rest = .ok ((), left) ∧
        String.fromUTF8? (rest.take (rest.length - left.length)).toByteArray = some text := by
  have horUtf8 {value : Option String} {rest left : List UInt8} :
      orUtf8Error value rest = .ok (text, left) ↔ value = some text ∧ rest = left := by
    cases value with
    | none => exact iff_of_false throw_ne_ok (by simp)
    | some value => exact pure_eq_ok.trans (by rw [Option.some.injEq])
  constructor
  · intro hrun
    obtain ⟨_, _, ⟨⟩, hrun⟩ := bind_eq_ok.mp hrun
    obtain ⟨_, first, hinteger, hrun⟩ := bind_eq_ok.mp hrun
    obtain ⟨_, second, hfraction, hrun⟩ := bind_eq_ok.mp hrun
    obtain ⟨_, third, hexponent, hrun⟩ := bind_eq_ok.mp hrun
    obtain ⟨_, _, ⟨⟩, hrun⟩ := bind_eq_ok.mp hrun
    obtain ⟨htext, rfl⟩ := horUtf8.mp hrun
    refine ⟨bind_eq_ok.mpr ⟨_, _, hinteger, ?_⟩, htext⟩
    exact bind_eq_ok.mpr ⟨_, _, hfraction, hexponent⟩
  · rintro ⟨hrun, htext⟩
    obtain ⟨_, first, hinteger, hrun⟩ := bind_eq_ok.mp hrun
    obtain ⟨_, second, hfraction, hexponent⟩ := bind_eq_ok.mp hrun
    apply bind_eq_ok.mpr ⟨_, _, rfl, ?_⟩
    apply bind_eq_ok.mpr ⟨_, _, hinteger, ?_⟩
    apply bind_eq_ok.mpr ⟨_, _, hfraction, ?_⟩
    apply bind_eq_ok.mpr ⟨_, _, hexponent, ?_⟩
    apply bind_eq_ok.mpr ⟨_, _, rfl, ?_⟩
    exact horUtf8.mpr ⟨htext, rfl⟩

/-- A number keeps the text it was read from. -/
theorem recognizes_parseNumber :
    Recognizes (NotAhead numberByte)
      (fun text value ↦ Number text ∧ value = String.ofList text) parseNumber := by
  have hslice (text : List Char) (left : List UInt8) :
      (encode text ++ left).take ((encode text ++ left).length - left.length) = encode text := by
    rw [List.length_append, Nat.add_sub_cancel, List.take_left]
  refine ⟨fun rest value left hrun ↦ ?_, ?_⟩
  · obtain ⟨hskip, hvalue⟩ := parseNumber_eq_ok.mp hrun
    rcases recognizes_skipNumber.sound rest () left hskip with ⟨text, rfl, htext⟩
    rw [hslice, fromUTF8?_eq_some] at hvalue
    refine ⟨text, rfl, htext, ?_⟩
    rw [encode_injective hvalue, String.ofList_toList]
  · rintro text _ left ⟨htext, rfl⟩ hleft
    apply parseNumber_eq_ok.mpr
    refine ⟨recognizes_skipNumber.complete text () left htext hleft, ?_⟩
    rw [hslice, fromUTF8?_eq_some, String.toList_ofList]

end Deblob.Fingerprint
