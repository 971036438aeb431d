import Deblob.Core.NumberText
import Mathlib.Algebra.Order.Field.Rat
import Mathlib.Data.List.Induction
import Mathlib.Data.List.TakeWhile
import Mathlib.Tactic.Linarith
import Mathlib.Tactic.Ring

/-!
# Canonical decimals

A JSON number literal is reduced to a sign, its significant digits and a power of ten, without ever
going through a float. A literal is refused if an exponent leaves the 64-bit range on the way. Two
literals that are reduced have the same canonical decimal exactly if they denote the same number.
-/

namespace Deblob.Semantic

open Core

/-- `value = (-1)^negative * digits * 10^exponent`. -/
structure CanonicalDecimal where
  negative : Bool
  digits : List Char
  exponent : ℤ
deriving DecidableEq

/-- The result of a checked operation on 64-bit integers. -/
def checkedI64 (number : ℤ) : Option ℤ :=
  if -2 ^ 63 ≤ number ∧ number < 2 ^ 63 then some number else none

/-- A single zero, or digits that do not start with one, and what follows them. -/
def scanInteger : List Char → Option (List Char × List Char)
  | [] => none
  | char :: chars =>
    if char = '0' then some (['0'], chars)
    else if char.isDigit then
      some ((char :: chars).takeWhile Char.isDigit, (char :: chars).dropWhile Char.isDigit)
    else none

/-- The digits behind a point; a point without digits is refused. -/
def scanFraction (chars : List Char) : Option (List Char × List Char) :=
  if chars.head? = some '.' then
    let digits := chars.tail.takeWhile Char.isDigit
    if digits = [] then none else some (digits, chars.tail.dropWhile Char.isDigit)
  else some ([], chars)

/-- The sign of an exponent and what follows it. -/
def scanSign : List Char → Bool × List Char
  | '+' :: chars => (false, chars)
  | '-' :: chars => (true, chars)
  | chars => (false, chars)

/-- The exponent behind an `e`, whose magnitude must fit 64 bits. -/
def scanExponent : List Char → Option (ℤ × List Char)
  | [] => some (0, [])
  | char :: chars =>
    if char = 'e' ∨ char = 'E' then
      let (negative, chars) := scanSign chars
      let digits := chars.takeWhile Char.isDigit
      if digits = [] then none
      else
        (checkedI64 (digitsValue digits)).map fun magnitude ↦
          (if negative then -magnitude else magnitude, chars.dropWhile Char.isDigit)
    else some (0, char :: chars)

/-- Drop trailing zeros, last digit first, and count them into the exponent. -/
def popZeros : List Char → ℤ → Option (List Char × ℤ)
  | [], exponent => some ([], exponent)
  | digit :: digits, exponent =>
    if digit = '0' then (checkedI64 (exponent + 1)).bind (popZeros digits)
    else some (digit :: digits, exponent)

def reduceDecimal (negative : Bool) (digits : List Char) (exponent : ℤ) :
    Option CanonicalDecimal :=
  let trimmed := digits.dropWhile (· = '0')
  if trimmed = [] then some ⟨false, ['0'], 0⟩
  else (popZeros trimmed.reverse exponent).map fun (reversed, exponent) ↦
    ⟨negative, reversed.reverse, exponent⟩

def canonicalDecimal (text : String) : Option CanonicalDecimal := do
  let negative := text.toList.head? = some '-'
  let chars := if negative then text.toList.tail else text.toList
  let (intPart, chars) ← scanInteger chars
  let (fracPart, chars) ← scanFraction chars
  let (expField, chars) ← scanExponent chars
  if chars = [] then
    let exponent ← checkedI64 (expField - fracPart.length)
    reduceDecimal negative (intPart ++ fracPart) exponent
  else none

/-- The number a canonical decimal stands for. -/
def CanonicalDecimal.value (decimal : CanonicalDecimal) : ℚ :=
  (if decimal.negative then -1 else 1) * (digitsValue decimal.digits * 10 ^ decimal.exponent)

/-! ## The value of the literal -/

theorem digitsValue_append_digit (digits : List Char) (digit : Char) :
    digitsValue (digits ++ [digit]) = digitsValue digits * 10 + (digit.toNat - '0'.toNat) := by
  simp [digitsValue]

theorem digitsValue_append_zeros (digits : List Char) (count : ℕ) :
    digitsValue (digits ++ List.replicate count '0') = digitsValue digits * 10 ^ count := by
  induction count with
  | zero => simp
  | succ count ih =>
      rw [List.replicate_succ', ← List.append_assoc, digitsValue_append_digit, ih]
      simp [pow_succ, mul_assoc]

theorem digitsValue_dropWhile_zero (digits : List Char) :
    digitsValue (digits.dropWhile (· = '0')) = digitsValue digits := by
  induction digits with
  | nil => rfl
  | cons digit digits ih =>
      by_cases hzero : digit = '0'
      · subst hzero
        rw [List.dropWhile_cons_of_pos (by simp), ih]
        rfl
      · rw [List.dropWhile_cons_of_neg (by simpa using hzero)]

theorem checkedI64_eq_some {number result : ℤ} (hchecked : checkedI64 number = some result) :
    result = number ∧ -2 ^ 63 ≤ number ∧ number < 2 ^ 63 := by
  unfold checkedI64 at hchecked
  split_ifs at hchecked with hrange
  exact ⟨(Option.some.inj hchecked).symm, hrange⟩

/-- The zeros that were dropped are in the exponent. -/
theorem popZeros_spec {reversed rest : List Char} {exponent last : ℤ}
    (hpop : popZeros reversed exponent = some (rest, last)) :
    ∃ count : ℕ, reversed = List.replicate count '0' ++ rest ∧ last = exponent + count ∧
      rest.head? ≠ some '0' := by
  induction reversed generalizing exponent with
  | nil =>
      cases hpop
      exact ⟨0, rfl, by simp, by simp⟩
  | cons digit reversed ih =>
      unfold popZeros at hpop
      split_ifs at hpop with hzero
      · rcases Option.bind_eq_some_iff.mp hpop with ⟨next, hnext, hrest⟩
        rcases ih hrest with ⟨count, rfl, hlast, hhead⟩
        refine ⟨count + 1, by rw [hzero]; rfl, ?_, hhead⟩
        rw [hlast, (checkedI64_eq_some hnext).1]
        push_cast
        ring
      · cases hpop
        exact ⟨0, rfl, by simp, by simpa using hzero⟩

theorem value_reduceDecimal {negative : Bool} {digits : List Char} {exponent : ℤ}
    {decimal : CanonicalDecimal} (hreduce : reduceDecimal negative digits exponent = some decimal) :
    decimal.value = (if negative then -1 else 1) * (digitsValue digits * 10 ^ exponent) := by
  unfold reduceDecimal at hreduce
  dsimp only at hreduce
  rw [← digitsValue_dropWhile_zero digits]
  split_ifs at hreduce with hzero
  · cases hreduce
    rw [hzero]
    simp [CanonicalDecimal.value, digitsValue]
  · rcases Option.map_eq_some_iff.mp hreduce with ⟨⟨reversed, last⟩, hpop, rfl⟩
    rcases popZeros_spec hpop with ⟨count, hsplit, rfl, -⟩
    have hdigits : digits.dropWhile (· = '0') = reversed.reverse ++ List.replicate count '0' := by
      rw [← List.reverse_reverse (digits.dropWhile (· = '0')), hsplit, List.reverse_append,
        List.reverse_replicate]
    rw [hdigits, digitsValue_append_zeros, CanonicalDecimal.value]
    dsimp only
    rw [zpow_add₀ (by norm_num), zpow_natCast]
    push_cast
    ring

theorem eq_takeWhile_of_dropWhile_nil {chars : List Char}
    (hrest : chars.dropWhile Char.isDigit = []) :
    chars.takeWhile Char.isDigit = chars ∧ chars.all Char.isDigit := by
  have hall : chars.takeWhile Char.isDigit = chars := by
    have hsplit := List.takeWhile_append_dropWhile (p := Char.isDigit) (l := chars)
    rwa [hrest, List.append_nil] at hsplit
  refine ⟨hall, List.all_eq_true.mpr fun char hchar ↦ ?_⟩
  rw [← hall] at hchar
  exact List.mem_takeWhile_imp hchar

/-- The sign of an exponent and its digits are an integer text. -/
theorem signedValue_of_scanSign {chars rest : List Char} {negative : Bool}
    (hsign : scanSign chars = (negative, rest)) (hdigits : rest ≠ [])
    (hall : rest.all Char.isDigit) :
    signedValue chars = some (if negative then -(digitsValue rest : ℤ) else digitsValue rest) := by
  unfold scanSign at hsign
  split at hsign
  · cases hsign
    simp [signedValue, hdigits, hall]
  · cases hsign
    simp [signedValue, hdigits, hall]
  · next hplus hminus =>
      cases hsign
      unfold signedValue
      split
      · exact absurd rfl (hminus _)
      · exact absurd rfl (hplus _)
      · rw [if_pos ⟨hdigits, hall⟩]
        rfl

/-- An exponent that ends the literal, as `unsignedDecimal` reads it. -/
theorem exponent_of_scan {chars : List Char} {exponent : ℤ}
    (hscan : scanExponent chars = some (exponent, [])) :
    (chars = [] ∧ exponent = 0) ∨ ∃ mark digits, chars = mark :: digits ∧
      (mark = 'e' ∨ mark = 'E') ∧ signedValue digits = some exponent := by
  cases chars with
  | nil =>
      cases hscan
      exact .inl ⟨rfl, rfl⟩
  | cons mark digits =>
      unfold scanExponent at hscan
      dsimp only at hscan
      by_cases hmark : mark = 'e' ∨ mark = 'E'
      · rw [if_pos hmark] at hscan
        generalize hsign : scanSign digits = signed at hscan
        rcases signed with ⟨negative, behind⟩
        by_cases hdigits : behind.takeWhile Char.isDigit = []
        · rw [if_pos hdigits] at hscan
          cases hscan
        · rw [if_neg hdigits] at hscan
          rcases Option.map_eq_some_iff.mp hscan with ⟨magnitude, hmagnitude, hresult⟩
          rcases Prod.mk.inj hresult with ⟨hexponent, hrest⟩
          rcases eq_takeWhile_of_dropWhile_nil hrest with ⟨htake, hall⟩
          rw [htake] at hdigits hmagnitude
          refine .inr ⟨mark, digits, rfl, hmark, ?_⟩
          rw [signedValue_of_scanSign hsign hdigits hall, ← hexponent,
            (checkedI64_eq_some hmagnitude).1]
      · rw [if_neg hmark] at hscan
        simp at hscan

theorem unsignedDecimal_of_scan {chars behind rest intPart fracPart : List Char} {exponent : ℤ}
    (hint : scanInteger chars = some (intPart, behind))
    (hfrac : scanFraction behind = some (fracPart, rest))
    (hexp : scanExponent rest = some (exponent, [])) :
    unsignedDecimal chars =
      some (digitsValue (intPart ++ fracPart), exponent - (fracPart.length : ℤ)) := by
  -- what follows the integer digits starts with a point, with an `e`, or not at all
  have hbehind : (behind.head? = some '.' ∧ behind.tail.takeWhile Char.isDigit = fracPart ∧
      behind.tail.dropWhile Char.isDigit = rest) ∨
      (behind.head? ≠ some '.' ∧ fracPart = [] ∧ rest = behind) := by
    unfold scanFraction at hfrac
    split_ifs at hfrac with hpoint
    · dsimp only at hfrac
      split_ifs at hfrac
      cases hfrac
      exact .inl ⟨hpoint, rfl, rfl⟩
    · cases hfrac
      exact .inr ⟨hpoint, rfl, rfl⟩
  have hhead : ∀ char chars', behind = char :: chars' → ¬ char.isDigit := by
    rintro char chars' rfl hdigit
    rcases hbehind with ⟨hpoint, -⟩ | ⟨-, -, rfl⟩
    · cases hpoint
      exact absurd hdigit (by decide)
    · rcases exponent_of_scan hexp with ⟨hnil, -⟩ | ⟨mark, digits, heq, hmark | hmark, -⟩
      · cases hnil
      · cases heq
        exact absurd (hmark ▸ hdigit) (by decide)
      · cases heq
        exact absurd (hmark ▸ hdigit) (by decide)
  have hinteger : chars.takeWhile Char.isDigit = intPart ∧ chars.dropWhile Char.isDigit = behind ∧
      intPart ≠ [] := by
    cases chars with
    | nil => cases hint
    | cons char chars =>
        unfold scanInteger at hint
        dsimp only at hint
        split_ifs at hint with hzero hdigit
        · cases hint
          subst hzero
          cases behind with
          | nil => exact ⟨rfl, rfl, by simp⟩
          | cons next behind =>
              have hnext := hhead next behind rfl
              rw [List.takeWhile_cons_of_pos (by decide), List.takeWhile_cons_of_neg hnext,
                List.dropWhile_cons_of_pos (by decide), List.dropWhile_cons_of_neg hnext]
              exact ⟨rfl, rfl, by simp⟩
        · cases hint
          refine ⟨rfl, rfl, ?_⟩
          rw [List.takeWhile_cons_of_pos hdigit]
          exact List.cons_ne_nil _ _
  rcases hinteger with ⟨htake, hdrop, hnonempty⟩
  unfold unsignedDecimal
  dsimp only
  rw [htake, hdrop]
  rcases hbehind with ⟨hpoint, hfraction, hrest⟩ | ⟨hpoint, rfl, rfl⟩
  · rw [if_pos hpoint, if_pos hpoint, hfraction, hrest, if_neg (by simp [hnonempty])]
    rcases exponent_of_scan hexp with ⟨rfl, rfl⟩ | ⟨mark, digits, rfl, hmark, hvalue⟩
    · rfl
    · dsimp only
      rw [if_pos hmark, hvalue, Option.map_some]
  · rw [if_neg hpoint, if_neg hpoint, if_neg (by simp [hnonempty])]
    rcases exponent_of_scan hexp with ⟨rfl, rfl⟩ | ⟨mark, digits, rfl, hmark, hvalue⟩
    · rfl
    · dsimp only
      rw [if_pos hmark, hvalue, Option.map_some]

/-- A literal that is reduced denotes the number of its canonical decimal. -/
theorem decimalValue_of_canonicalDecimal {text : String} {decimal : CanonicalDecimal}
    (hcanonical : canonicalDecimal text = some decimal) :
    decimalValue text = some decimal.value := by
  unfold canonicalDecimal at hcanonical
  dsimp only at hcanonical
  rcases Option.bind_eq_some_iff.mp hcanonical with ⟨⟨intPart, behind⟩, hint, hcanonical⟩
  rcases Option.bind_eq_some_iff.mp hcanonical with ⟨⟨fracPart, rest⟩, hfrac, hcanonical⟩
  rcases Option.bind_eq_some_iff.mp hcanonical with ⟨⟨expField, last⟩, hexp, hcanonical⟩
  dsimp only at hfrac hexp hcanonical
  split_ifs at hcanonical with hlast
  subst hlast
  rcases Option.bind_eq_some_iff.mp hcanonical with ⟨exponent, hchecked, hreduce⟩
  rw [(checkedI64_eq_some hchecked).1] at hreduce
  have hvalue := value_reduceDecimal hreduce
  unfold decimalValue
  split
  · next chars hchars =>
      rw [hchars] at hint hvalue
      simp only [List.head?_cons, if_true, List.tail_cons, decide_true] at hint hvalue
      rw [unsignedDecimal_of_scan hint hfrac hexp, Option.map_some, hvalue]
      simp
  · next hminus =>
      have hhead : text.toList.head? ≠ some '-' := by
        intro hhead
        rcases List.head?_eq_some_iff.mp hhead with ⟨chars, hchars⟩
        exact hminus chars hchars
      rw [if_neg hhead] at hint
      rw [unsignedDecimal_of_scan hint hfrac hexp, Option.map_some, hvalue]
      simp [hhead]

/-! ## One decimal for each number -/

/-- Zero, or digits that neither start nor end with a zero. -/
def CanonicalDecimal.IsCanonical (decimal : CanonicalDecimal) : Prop :=
  decimal = ⟨false, ['0'], 0⟩ ∨
    (decimal.digits ≠ [] ∧ decimal.digits.all Char.isDigit ∧ decimal.digits.head? ≠ some '0' ∧
      decimal.digits.getLast? ≠ some '0')

theorem digit_spec {digit : Char} (hdigit : digit.isDigit) :
    digit.toNat - '0'.toNat < 10 ∧ Nat.digitChar (digit.toNat - '0'.toNat) = digit := by
  have hrange : 48 ≤ digit.toNat ∧ digit.toNat ≤ 57 := by
    simpa [Char.isDigit, UInt32.le_iff_toNat_le] using hdigit
  have hzero : '0'.toNat = 48 := rfl
  refine ⟨by omega, Char.toNat_inj.mp ?_⟩
  rw [Nat.toNat_digitChar_of_lt_ten (by omega)]
  omega

/-- Digits without a leading zero are the digits of their value. -/
theorem toDigits_digitsValue {digits : List Char} (hnonempty : digits ≠ [])
    (hall : digits.all Char.isDigit) (hhead : digits.head? ≠ some '0') :
    0 < digitsValue digits ∧ Nat.toDigits 10 (digitsValue digits) = digits := by
  induction digits using List.reverseRecOn with
  | nil => exact absurd rfl hnonempty
  | append_singleton digits digit ih =>
      rw [List.all_append, Bool.and_eq_true] at hall
      rcases digit_spec (by simpa using hall.2) with ⟨hlt, hchar⟩
      rw [digitsValue_append_digit]
      by_cases hempty : digits = []
      · subst hempty
        have hvalue : digitsValue [] * 10 + (digit.toNat - '0'.toNat) =
            digit.toNat - '0'.toNat := by simp [digitsValue]
        rw [hvalue, Nat.toDigits_of_lt_base hlt, hchar]
        refine ⟨Nat.pos_of_ne_zero fun hzero ↦ hhead ?_, rfl⟩
        rw [hzero] at hchar
        simp [← hchar]
      · have hfirst : digits.head? ≠ some '0' := by
          rw [List.head?_append] at hhead
          cases digits with
          | nil => exact absurd rfl hempty
          | cons first rest => simpa using hhead
        rcases ih hempty hall.1 hfirst with ⟨hpositive, hdigits⟩
        refine ⟨by omega, ?_⟩
        rw [Nat.mul_comm, ← Nat.toDigits_append_toDigits (by decide) hpositive hlt, hdigits,
          Nat.toDigits_of_lt_base hlt, hchar]

theorem digitsValue_mod_ten {digits : List Char} (hnonempty : digits ≠ [])
    (hall : digits.all Char.isDigit) (hlast : digits.getLast? ≠ some '0') :
    digitsValue digits % 10 ≠ 0 := by
  rcases List.eq_nil_or_concat digits with rfl | ⟨init, digit, rfl⟩
  · exact absurd rfl hnonempty
  · rw [List.concat_eq_append] at hall hlast ⊢
    rw [List.all_append, Bool.and_eq_true] at hall
    rcases digit_spec (by simpa using hall.2) with ⟨hlt, hchar⟩
    rw [digitsValue_append_digit]
    intro hzero
    have hdigit : digit.toNat - '0'.toNat = 0 := by omega
    rw [hdigit] at hchar
    exact hlast (by simp [← hchar])

/-- A power of ten is told by the other factor when that one does not end with a zero. -/
theorem mul_zpow_ten_inj {left right : ℕ} {first second : ℤ} (hleft : left % 10 ≠ 0)
    (hright : right % 10 ≠ 0) (heq : (left : ℚ) * 10 ^ first = right * 10 ^ second) :
    left = right ∧ first = second := by
  have hwlog {left right : ℕ} {first second : ℤ} (hleft : left % 10 ≠ 0) (hle : first ≤ second)
      (heq : (left : ℚ) * 10 ^ first = right * 10 ^ second) : left = right ∧ first = second := by
    rcases Int.le.dest hle with ⟨shift, rfl⟩
    rw [zpow_add₀ (by norm_num), zpow_natCast, mul_comm ((10 : ℚ) ^ first), ← mul_assoc] at heq
    have hrat : (left : ℚ) = right * 10 ^ shift :=
      mul_right_cancel₀ (zpow_ne_zero first (by norm_num)) heq
    have hnat : left = right * 10 ^ shift := by exact_mod_cast hrat
    cases shift with
    | zero => simpa using hnat
    | succ shift =>
        rw [pow_succ, ← mul_assoc] at hnat
        omega
  rcases le_total first second with hle | hle
  · exact hwlog hleft hle heq
  · rcases hwlog hright hle heq.symm with ⟨hvalue, hexponent⟩
    exact ⟨hvalue.symm, hexponent.symm⟩

theorem CanonicalDecimal.eq_of_value_eq {left right : CanonicalDecimal} (hleft : left.IsCanonical)
    (hright : right.IsCanonical) (hvalue : left.value = right.value) : left = right := by
  have hpositive (decimal : CanonicalDecimal) (hdigits : 0 < digitsValue decimal.digits) :
      0 < (digitsValue decimal.digits : ℚ) * 10 ^ decimal.exponent :=
    mul_pos (by exact_mod_cast hdigits) (zpow_pos (by norm_num) _)
  have hzero : CanonicalDecimal.value ⟨false, ['0'], 0⟩ = 0 := by
    simp [CanonicalDecimal.value, digitsValue]
  have hnonzero (decimal : CanonicalDecimal) (hdigits : 0 < digitsValue decimal.digits) :
      decimal.value ≠ 0 := by
    have hlt := hpositive decimal hdigits
    unfold CanonicalDecimal.value
    split_ifs
    · exact mul_ne_zero (by norm_num) hlt.ne'
    · exact mul_ne_zero (by norm_num) hlt.ne'
  rcases hleft with rfl | ⟨hnonempty, hall, hhead, hlast⟩
  · rcases hright with rfl | ⟨hnonempty, hall, hhead, -⟩
    · rfl
    · exact absurd (hvalue.symm.trans hzero)
        (hnonzero right (toDigits_digitsValue hnonempty hall hhead).1)
  · rcases toDigits_digitsValue hnonempty hall hhead with ⟨hpos, hdigits⟩
    rcases hright with rfl | ⟨hnonempty', hall', hhead', hlast'⟩
    · exact absurd (hvalue.trans hzero) (hnonzero left hpos)
    · rcases toDigits_digitsValue hnonempty' hall' hhead' with ⟨hpos', hdigits'⟩
      have hleftpos := hpositive left hpos
      have hrightpos := hpositive right hpos'
      rcases left with ⟨negative, digits, exponent⟩
      rcases right with ⟨negative', digits', exponent'⟩
      unfold CanonicalDecimal.value at hvalue
      dsimp only at hvalue hleftpos hrightpos
      have hsign : negative = negative' := by
        cases negative <;> cases negative' <;> simp at hvalue ⊢ <;> linarith
      subst hsign
      have hmagnitude : (digitsValue digits : ℚ) * 10 ^ exponent =
          digitsValue digits' * 10 ^ exponent' := by
        cases negative <;> simpa using hvalue
      rcases mul_zpow_ten_inj (digitsValue_mod_ten hnonempty hall hlast)
        (digitsValue_mod_ten hnonempty' hall' hlast') hmagnitude with ⟨hsame, rfl⟩
      have hsame' : digits = digits' :=
        calc digits = Nat.toDigits 10 (digitsValue digits) := hdigits.symm
          _ = Nat.toDigits 10 (digitsValue digits') := congrArg (Nat.toDigits 10) hsame
          _ = digits' := hdigits'
      rw [hsame']

theorem scanInteger_spec {chars rest intPart : List Char}
    (hint : scanInteger chars = some (intPart, rest)) :
    chars = intPart ++ rest ∧ intPart ≠ [] ∧ intPart.all Char.isDigit := by
  cases chars with
  | nil => cases hint
  | cons char chars =>
      unfold scanInteger at hint
      dsimp only at hint
      split_ifs at hint with hzero hdigit
      · cases hint
        exact ⟨by rw [hzero]; rfl, by simp, by decide⟩
      · rcases Prod.mk.inj (Option.some.inj hint) with ⟨rfl, rfl⟩
        refine ⟨List.takeWhile_append_dropWhile.symm, ?_,
          List.all_eq_true.mpr fun digit hmem ↦ List.mem_takeWhile_imp hmem⟩
        rw [List.takeWhile_cons_of_pos hdigit]
        exact List.cons_ne_nil _ _

theorem scanFraction_spec {chars rest fracPart : List Char}
    (hfrac : scanFraction chars = some (fracPart, rest)) :
    fracPart.length ≤ chars.length ∧ fracPart.all Char.isDigit := by
  unfold scanFraction at hfrac
  dsimp only at hfrac
  split_ifs at hfrac with hpoint hdigits
  · cases hfrac
    have htake := (List.takeWhile_prefix (p := Char.isDigit) (l := chars.tail)).length_le
    refine ⟨htake.trans (by simp), List.all_eq_true.mpr fun digit hmem ↦ ?_⟩
    exact List.mem_takeWhile_imp hmem
  · cases hfrac
    exact ⟨Nat.zero_le _, rfl⟩

theorem popZeros_range {reversed rest : List Char} {exponent last : ℤ}
    (hexponent : -2 ^ 63 ≤ exponent ∧ exponent < 2 ^ 63)
    (hpop : popZeros reversed exponent = some (rest, last)) :
    -2 ^ 63 ≤ last ∧ last < 2 ^ 63 := by
  induction reversed generalizing exponent with
  | nil =>
      cases hpop
      exact hexponent
  | cons digit reversed ih =>
      unfold popZeros at hpop
      by_cases hzero : digit = '0'
      · rw [if_pos hzero] at hpop
        rcases Option.bind_eq_some_iff.mp hpop with ⟨next, hnext, hrest⟩
        rcases checkedI64_eq_some hnext with ⟨rfl, hrange⟩
        exact ih hrange hrest
      · rw [if_neg hzero] at hpop
        cases hpop
        exact hexponent

/-- Reducing digits gives a canonical decimal with no more digits and an exponent of 64 bits. -/
theorem reduceDecimal_spec {negative : Bool} {digits : List Char} {exponent : ℤ}
    {decimal : CanonicalDecimal} (hnonempty : digits ≠ []) (hall : digits.all Char.isDigit)
    (hexponent : -2 ^ 63 ≤ exponent ∧ exponent < 2 ^ 63)
    (hreduce : reduceDecimal negative digits exponent = some decimal) :
    decimal.IsCanonical ∧ (-2 ^ 63 ≤ decimal.exponent ∧ decimal.exponent < 2 ^ 63) ∧
      decimal.digits.length ≤ digits.length ∧ decimal.digits.all Char.isDigit := by
  unfold reduceDecimal at hreduce
  dsimp only at hreduce
  by_cases hzero : digits.dropWhile (· = '0') = []
  · rw [if_pos hzero] at hreduce
    cases hreduce
    exact ⟨.inl rfl, by norm_num, List.length_pos_iff.mpr hnonempty, by decide⟩
  · rw [if_neg hzero] at hreduce
    rcases Option.map_eq_some_iff.mp hreduce with ⟨⟨reversed, last⟩, hpop, rfl⟩
    rcases popZeros_spec hpop with ⟨count, hsplit, -, hhead⟩
    have htrimmed : digits.dropWhile (· = '0') =
        reversed.reverse ++ List.replicate count '0' := by
      rw [← List.reverse_reverse (digits.dropWhile (· = '0')), hsplit, List.reverse_append,
        List.reverse_replicate]
    have hsuffix := List.dropWhile_suffix (l := digits) (· = '0')
    rw [htrimmed] at hsuffix
    have hdigits : reversed.reverse.all Char.isDigit := by
      apply List.all_eq_true.mpr
      intro digit hmem
      exact List.all_eq_true.mp hall digit (hsuffix.subset (List.mem_append_left _ hmem))
    have hlength : reversed.reverse.length ≤ digits.length := by
      have hle := hsuffix.length_le
      rw [List.length_append] at hle
      omega
    have hfirst : (digits.dropWhile (· = '0')).head? ≠ some '0' := by
      intro hfirst
      have hnot := List.head?_dropWhile_not (p := (· = '0')) digits
      rw [hfirst] at hnot
      simp at hnot
    have hnonzero : reversed.reverse ≠ [] := by
      intro hempty
      rw [htrimmed, hempty, List.nil_append] at hzero hfirst
      cases count with
      | zero => exact hzero rfl
      | succ count => exact hfirst rfl
    refine ⟨.inr ⟨hnonzero, hdigits, ?_, ?_⟩, popZeros_range hexponent hpop, hlength, hdigits⟩
    · rw [htrimmed, List.head?_append] at hfirst
      intro hhead'
      dsimp only at hhead'
      rw [hhead'] at hfirst
      exact hfirst rfl
    · rw [List.getLast?_reverse]
      exact hhead

/-- A reduced literal is canonical, with digits of the text and an exponent of 64 bits. -/
theorem canonicalDecimal_spec {text : String} {decimal : CanonicalDecimal}
    (hcanonical : canonicalDecimal text = some decimal) :
    decimal.IsCanonical ∧ (-2 ^ 63 ≤ decimal.exponent ∧ decimal.exponent < 2 ^ 63) ∧
      decimal.digits.length ≤ text.toList.length ∧ decimal.digits.all Char.isDigit := by
  unfold canonicalDecimal at hcanonical
  dsimp only at hcanonical
  rcases Option.bind_eq_some_iff.mp hcanonical with ⟨⟨intPart, behind⟩, hint, hcanonical⟩
  rcases Option.bind_eq_some_iff.mp hcanonical with ⟨⟨fracPart, rest⟩, hfrac, hcanonical⟩
  rcases Option.bind_eq_some_iff.mp hcanonical with ⟨⟨expField, last⟩, -, hcanonical⟩
  dsimp only at hfrac hcanonical
  split_ifs at hcanonical
  rcases Option.bind_eq_some_iff.mp hcanonical with ⟨exponent, hchecked, hreduce⟩
  rcases checkedI64_eq_some hchecked with ⟨rfl, hrange⟩
  rcases scanInteger_spec hint with ⟨hsplit, hnonempty, hintDigits⟩
  rcases scanFraction_spec hfrac with ⟨hfracLength, hfracDigits⟩
  have hall : (intPart ++ fracPart).all Char.isDigit := by
    rw [List.all_append, hintDigits, hfracDigits]
    rfl
  rcases reduceDecimal_spec (by simp [hnonempty]) hall hrange hreduce with
    ⟨hspec, hexponent, hlength, hdigits⟩
  refine ⟨hspec, hexponent, ?_, hdigits⟩
  have hchars : (if text.toList.head? = some '-' then text.toList.tail
      else text.toList).length ≤ text.toList.length := by
    split_ifs
    · simp
    · rfl
  rw [hsplit, List.length_append] at hchars
  rw [List.length_append] at hlength
  omega

/-- Two reduced literals have the same canonical decimal exactly if they denote one number. -/
theorem canonicalDecimal_eq_iff {left right : String} {first second : CanonicalDecimal}
    (hleft : canonicalDecimal left = some first) (hright : canonicalDecimal right = some second) :
    first = second ↔ decimalValue left = decimalValue right := by
  rw [decimalValue_of_canonicalDecimal hleft, decimalValue_of_canonicalDecimal hright,
    Option.some.injEq]
  constructor
  · rintro rfl
    rfl
  · exact CanonicalDecimal.eq_of_value_eq (canonicalDecimal_spec hleft).1
      (canonicalDecimal_spec hright).1

end Deblob.Semantic
