import Mathlib.Algebra.GroupWithZero.Nat
import Mathlib.Data.List.Basic
import Mathlib.Data.Nat.Bits

/-!
# Unpadded lowercase base32

The RFC 4648 base32 alphabet in lowercase, five bits a symbol and no padding. Digests are spelled
this way inside identifiers, so what matters downstream is the length of an encoded digest, that
only alphabet symbols occur in it, and that its unused trailing bits are zero.
-/

namespace Deblob.Lib.Base32

/-- The symbol of one five-bit group; larger values never arise. -/
def symbol (value : ℕ) : Char :=
  if value < 26 then Char.ofNat (97 + value) else Char.ofNat (50 + (value - 26))

/-- The value of a symbol in either letter case. -/
def symbolValue? (c : Char) : Option ℕ :=
  if 97 ≤ c.toNat ∧ c.toNat < 123 then some (c.toNat - 97)
  else if 65 ≤ c.toNat ∧ c.toNat < 91 then some (c.toNat - 65)
  else if 50 ≤ c.toNat ∧ c.toNat < 56 then some (c.toNat - 50 + 26)
  else none

theorem symbolValue?_symbol {value : ℕ} (hvalue : value < 32) :
    symbolValue? (symbol value) = some value := by
  revert value
  decide

/-- The eight bits of a byte, most significant first. -/
def byteBits (byte : UInt8) : List Bool :=
  [7, 6, 5, 4, 3, 2, 1, 0].map byte.toNat.testBit

def bits (bytes : List UInt8) : List Bool :=
  bytes.flatMap byteBits

@[simp]
theorem length_bits (bytes : List UInt8) : (bits bytes).length = 8 * bytes.length := by
  induction bytes with
  | nil => rfl
  | cons byte bytes ih =>
      simp only [bits, List.flatMap_cons, List.length_append, List.length_cons] at ih ⊢
      simp only [ih, byteBits, List.length_map, List.length_cons, List.length_nil]
      omega

theorem byteBits_inj {left right : UInt8} (heq : byteBits left = byteBits right) :
    left = right := by
  apply UInt8.toNat_inj.mp
  apply Nat.eq_of_testBit_eq
  intro i
  by_cases hi : i < 8
  · have hmem : i ∈ [7, 6, 5, 4, 3, 2, 1, 0] := by
      simp only [List.mem_cons, List.not_mem_nil]
      omega
    exact List.map_inj_left.mp heq i hmem
  · have hpow : 2 ^ 8 ≤ 2 ^ i := Nat.pow_le_pow_right (by decide) (by omega)
    rw [Nat.testBit_lt_two_pow (Nat.lt_of_lt_of_le left.toNat_lt hpow),
      Nat.testBit_lt_two_pow (Nat.lt_of_lt_of_le right.toNat_lt hpow)]

theorem bits_inj {left right : List UInt8} (hlength : left.length = right.length)
    (heq : bits left = bits right) : left = right := by
  induction left generalizing right with
  | nil => exact (List.length_eq_zero_iff.mp hlength.symm).symm
  | cons byte bytes ih =>
      match right, hlength with
      | other :: others, hlength =>
          rcases List.append_inj heq rfl with ⟨hbyte, hrest⟩
          rw [byteBits_inj hbyte, ih (by simpa using hlength) hrest]

/-- The value of one group of five bits. -/
def groupValue (a b c d e : Bool) : ℕ :=
  16 * a.toNat + 8 * b.toNat + 4 * c.toNat + 2 * d.toNat + e.toNat

theorem groupValue_lt (a b c d e : Bool) : groupValue a b c d e < 32 := by
  cases a <;> cases b <;> cases c <;> cases d <;> cases e <;> decide

/-- Five bits a symbol, the last group filled up with zero bits. -/
def encodeBits : List Bool → List ℕ
  | [] => []
  | [a] => [groupValue a false false false false]
  | [a, b] => [groupValue a b false false false]
  | [a, b, c] => [groupValue a b c false false]
  | [a, b, c, d] => [groupValue a b c d false]
  | a :: b :: c :: d :: e :: rest => groupValue a b c d e :: encodeBits rest

theorem lt_of_mem_encodeBits {source : List Bool} :
    ∀ value ∈ encodeBits source, value < 32 := by
  fun_induction encodeBits source <;> simp_all [groupValue_lt]

theorem length_encodeBits (source : List Bool) :
    (encodeBits source).length = (source.length + 4) / 5 := by
  fun_induction encodeBits source with
  | case6 a b c d e rest ih =>
      simp only [List.length_cons, ih]
      omega
  | _ => simp

/-- One bit left over for the last symbol leaves its four other bits zero. -/
theorem getLast?_encodeBits {source : List Bool} (hlength : source.length % 5 = 1) :
    ∃ value, (encodeBits source).getLast? = some value ∧ value % 16 = 0 := by
  fun_induction encodeBits source with
  | case1 => simp at hlength
  | case2 a => exact ⟨_, rfl, by cases a <;> rfl⟩
  | case3 | case4 | case5 => simp at hlength
  | case6 a b c d e rest ih =>
      have hrest : rest.length % 5 = 1 := by
        simp only [List.length_cons] at hlength
        omega
      obtain ⟨value, hlast, hzero⟩ := ih hrest
      refine ⟨value, ?_, hzero⟩
      rw [List.getLast?_cons, hlast]
      rfl

theorem groupValue_inj {a b c d e a' b' c' d' e' : Bool}
    (heq : groupValue a b c d e = groupValue a' b' c' d' e') :
    [a, b, c, d, e] = [a', b', c', d', e'] := by
  revert a b c d e a' b' c' d' e'
  decide +kernel

/-- Bit strings of one length have different groups. -/
theorem encodeBits_inj {left right : List Bool} (hlength : left.length = right.length)
    (heq : encodeBits left = encodeBits right) : left = right := by
  induction left using encodeBits.induct generalizing right with
  | case1 => exact (List.length_eq_zero_iff.mp hlength.symm).symm
  | case2 a =>
      match right, hlength with
      | [a'], _ =>
          have hgroup := groupValue_inj (List.cons.inj heq).1
          simp_all
  | case3 a b =>
      match right, hlength with
      | [a', b'], _ =>
          have hgroup := groupValue_inj (List.cons.inj heq).1
          simp_all
  | case4 a b c =>
      match right, hlength with
      | [a', b', c'], _ =>
          have hgroup := groupValue_inj (List.cons.inj heq).1
          simp_all
  | case5 a b c d =>
      match right, hlength with
      | [a', b', c', d'], _ =>
          have hgroup := groupValue_inj (List.cons.inj heq).1
          simp_all
  | case6 a b c d e rest ih =>
      match right, hlength with
      | a' :: b' :: c' :: d' :: e' :: rest', hlength =>
          have hgroup := groupValue_inj (List.cons.inj heq).1
          have hrest := ih (by simpa using hlength) (List.cons.inj heq).2
          simp_all

/-- The encoded text of a byte string. -/
def encode (bytes : List UInt8) : String :=
  String.ofList ((encodeBits (bits bytes)).map symbol)

/-- Byte strings of one length have different texts. -/
theorem encode_inj {left right : List UInt8} (hlength : left.length = right.length)
    (heq : encode left = encode right) : left = right := by
  have hvalues (source : List Bool) :
      ((encodeBits source).map symbol).map symbolValue? = (encodeBits source).map some := by
    rw [List.map_map]
    exact List.map_congr_left fun value hvalue ↦ symbolValue?_symbol (lt_of_mem_encodeBits _ hvalue)
  have hgroups : (encodeBits (bits left)).map some = (encodeBits (bits right)).map some := by
    rw [← hvalues, ← hvalues, String.ofList_injective heq]
  apply bits_inj hlength
  apply encodeBits_inj
  · rw [length_bits, length_bits, hlength]
  · exact (List.map_inj_right fun _ _ ↦ Option.some.inj).mp hgroups

/-- The texts that decode to exactly `count` bytes: right length, alphabet symbols only, and no
stray bits after the last byte. -/
def decodesTo (count : ℕ) (text : String) : Bool :=
  text.toList.length == (8 * count + 4) / 5 &&
    text.toList.all (fun c ↦ (symbolValue? c).isSome) &&
    ((text.toList.getLast?.bind symbolValue?).all fun value ↦
      value % 2 ^ (5 * ((8 * count + 4) / 5) - 8 * count) == 0)

theorem symbolValue?_of_mem_encode {bytes : List UInt8} {c : Char}
    (hc : c ∈ (encode bytes).toList) : (symbolValue? c).isSome := by
  simp only [encode, String.toList_ofList, List.mem_map] at hc
  obtain ⟨value, hvalue, rfl⟩ := hc
  rw [symbolValue?_symbol (lt_of_mem_encodeBits value hvalue)]
  rfl

/-- The separator of composite keys never occurs inside a decodable text. -/
theorem eq_notMem_of_decodesTo {count : ℕ} {text : String}
    (hdecodes : decodesTo count text = true) :
    '=' ∉ text.toList := by
  intro hmem
  simp only [decodesTo, Bool.and_eq_true, List.all_eq_true] at hdecodes
  have hsome := hdecodes.1.2 '=' hmem
  revert hsome
  decide

/-- An encoded digest of 32 bytes is a text that decodes to 32 bytes. -/
theorem decodesTo_encode {bytes : List UInt8} (hlength : bytes.length = 32) :
    decodesTo 32 (encode bytes) = true := by
  have hbits : (bits bytes).length = 256 := by rw [length_bits, hlength]
  have hremainder : (bits bytes).length % 5 = 1 := by omega
  obtain ⟨value, hlast, hzero⟩ := getLast?_encodeBits hremainder
  have hvalue : value < 32 := lt_of_mem_encodeBits value (List.mem_of_getLast? hlast)
  simp only [decodesTo, Bool.and_eq_true, beq_iff_eq, List.all_eq_true]
  refine ⟨⟨?_, fun c hc ↦ symbolValue?_of_mem_encode hc⟩, ?_⟩
  · simp [encode, length_encodeBits, hbits]
  · simp [encode, hlast, symbolValue?_symbol hvalue, hzero]

end Deblob.Lib.Base32
