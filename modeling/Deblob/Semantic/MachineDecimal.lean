import Deblob.Semantic.Decimal

/-!
# Canonical decimals in machine arithmetic

The exponents of a decimal are kept in 64-bit integers. The sums are checked, and a literal whose
exponent leaves the range is refused; the negation of a magnitude and the cast of a length are not
checked. For a text that fits in memory the unchecked operations never overflow, so the machine
computes the canonical decimal of exact arithmetic.
-/

namespace Deblob.Semantic

open Core

/-- An unchecked operation whose result does not fit the type. -/
inductive Overflow where
  | negation
  | cast
deriving DecidableEq

/-- A computation that refuses its input or runs into an unchecked operation that overflows. -/
abbrev Machine := OptionT (Except Overflow)

def Machine.ofOption {α : Type} (result : Option α) : Machine α :=
  OptionT.mk (.ok result)

/-- `-magnitude` -/
def negI64 (magnitude : Int64) : Machine Int64 :=
  if magnitude = Int64.minValue then OptionT.mk (.error .negation) else pure (-magnitude)

/-- `len as i64` -/
def castI64 (length : ℕ) : Machine Int64 :=
  if length < 2 ^ 63 then pure (Int64.ofNat length) else OptionT.mk (.error .cast)

/-- An integer in the type, if it fits. -/
def toI64 (number : ℤ) : Option Int64 :=
  (checkedI64 number).map Int64.ofInt

def scanExponentI64 : List Char → Machine (Int64 × List Char)
  | [] => pure (0, [])
  | char :: chars =>
    if char = 'e' ∨ char = 'E' then
      let (negative, chars) := scanSign chars
      let digits := chars.takeWhile Char.isDigit
      if digits = [] then failure
      else do
        let magnitude ← Machine.ofOption (toI64 (digitsValue digits))
        let exponent ← if negative then negI64 magnitude else pure magnitude
        return (exponent, chars.dropWhile Char.isDigit)
    else pure (0, char :: chars)

def popZerosI64 : List Char → Int64 → Machine (List Char × Int64)
  | [], exponent => pure ([], exponent)
  | digit :: digits, exponent =>
    if digit = '0' then do
      let next ← Machine.ofOption (toI64 (exponent.toInt + 1))
      popZerosI64 digits next
    else pure (digit :: digits, exponent)

/-- A canonical decimal as the source stores it. -/
structure MachineDecimal where
  negative : Bool
  digits : List Char
  exponent : Int64
deriving DecidableEq

def reduceDecimalI64 (negative : Bool) (digits : List Char) (exponent : Int64) :
    Machine MachineDecimal :=
  let trimmed := digits.dropWhile (· = '0')
  if trimmed = [] then pure ⟨false, ['0'], 0⟩
  else do
    let (reversed, exponent) ← popZerosI64 trimmed.reverse exponent
    return ⟨negative, reversed.reverse, exponent⟩

def canonicalDecimalI64 (text : String) : Machine MachineDecimal := do
  let negative := text.toList.head? = some '-'
  let chars := if negative then text.toList.tail else text.toList
  let (intPart, chars) ← Machine.ofOption (scanInteger chars)
  let (fracPart, chars) ← Machine.ofOption (scanFraction chars)
  let (expField, chars) ← scanExponentI64 chars
  if chars = [] then
    let fracLength ← castI64 fracPart.length
    let exponent ← Machine.ofOption (toI64 (expField.toInt - fracLength.toInt))
    reduceDecimalI64 negative (intPart ++ fracPart) exponent
  else failure

/-- The decimal with its exponent as an integer. -/
def MachineDecimal.exact (decimal : MachineDecimal) : CanonicalDecimal where
  negative := decimal.negative
  digits := decimal.digits
  exponent := decimal.exponent.toInt

theorem MachineDecimal.exact_inj {left right : MachineDecimal} (heq : left.exact = right.exact) :
    left = right := by
  rcases left with ⟨negative, digits, exponent⟩
  rcases right with ⟨negative', digits', exponent'⟩
  rcases CanonicalDecimal.mk.inj heq with ⟨hnegative, hdigits, hexponent⟩
  dsimp only at hnegative hdigits hexponent
  rw [hnegative, hdigits, Int64.toInt_inj.mp hexponent]

/-! ## The machine follows exact arithmetic -/

/-- The machine does not overflow, and what it finds stands for what exact arithmetic finds. -/
def Computes {α β : Type} (value : α → β) (machine : Machine α) (exact : Option β) : Prop :=
  ∃ found, machine.run = .ok found ∧ found.map value = exact

section Computes

variable {α β γ δ : Type} {value : α → β} {value' : γ → δ}

theorem Computes.pure {found : α} {exact : β} (hvalue : value found = exact) :
    Computes value (pure found) (some exact) :=
  ⟨some found, rfl, congrArg some hvalue⟩

theorem Computes.failure : Computes value failure none :=
  ⟨none, rfl, rfl⟩

theorem Computes.ofOption {found : Option α} {exact : Option β} (hvalue : found.map value = exact) :
    Computes value (Machine.ofOption found) exact :=
  ⟨found, rfl, hvalue⟩

theorem Computes.checked (result : Option α) :
    Computes id (Machine.ofOption result) result :=
  .ofOption (congrFun Option.map_id result)

theorem Computes.bind {machine : Machine α} {exact : Option β} {rest : α → Machine γ}
    {exactRest : β → Option δ} (hfirst : Computes value machine exact)
    (hrest : ∀ found, exact = some (value found) →
      Computes value' (rest found) (exactRest (value found))) :
    Computes value' (machine >>= rest) (exact.bind exactRest) := by
  rcases hfirst with ⟨found, hrun, rfl⟩
  unfold Computes
  rw [OptionT.run_bind, hrun]
  cases found with
  | none => exact ⟨none, rfl, rfl⟩
  | some found => exact hrest found rfl

/-- A step that exact arithmetic does not take. -/
theorem Computes.bind_some {machine : Machine α} {exact : β} {rest : α → Machine γ}
    {result : Option δ} (hfirst : Computes value machine (some exact))
    (hrest : ∀ found, value found = exact → Computes value' (rest found) result) :
    Computes value' (machine >>= rest) result := by
  have hbind : Computes value' (machine >>= rest) ((some exact).bind fun _ ↦ result) :=
    hfirst.bind fun found hfound ↦ hrest found (Option.some.inj hfound).symm
  exact hbind

end Computes

theorem toI64_map (number : ℤ) : (toI64 number).map Int64.toInt = checkedI64 number := by
  unfold toI64
  rw [Option.map_map]
  unfold checkedI64
  split_ifs with hrange
  · rw [Option.map_some, Function.comp_apply, Int64.toInt_ofInt_of_le hrange.1 hrange.2]
  · rfl

theorem Computes.toI64 {found exact : ℤ} (heq : found = exact) :
    Computes Int64.toInt (Machine.ofOption (toI64 found)) (checkedI64 exact) :=
  heq ▸ .ofOption (toI64_map found)

theorem computes_castI64 {length : ℕ} (hlength : length < 2 ^ 63) :
    Computes Int64.toInt (castI64 length) (some (length : ℤ)) := by
  unfold castI64
  rw [if_pos hlength]
  exact .pure (Int64.toInt_ofNat_of_lt hlength)

/-- A magnitude is read without a sign, so its negation fits. -/
theorem computes_negI64 {magnitude : Int64} (hmagnitude : 0 ≤ magnitude.toInt) :
    Computes Int64.toInt (negI64 magnitude) (some (-magnitude.toInt)) := by
  have hmin : magnitude ≠ Int64.minValue := by
    rintro rfl
    exact absurd hmagnitude (by decide)
  have hlt : magnitude.toInt < 2 ^ 63 := magnitude.toInt_lt
  unfold negI64
  rw [if_neg hmin]
  apply Computes.pure
  rw [Int64.toInt_neg]
  apply Int.bmod_eq_of_le <;> omega

theorem computes_scanExponentI64 (chars : List Char) :
    Computes (fun found : Int64 × List Char ↦ (found.1.toInt, found.2)) (scanExponentI64 chars)
      (scanExponent chars) := by
  cases chars with
  | nil => exact .pure rfl
  | cons char chars =>
      unfold scanExponentI64 scanExponent
      dsimp only
      by_cases hmark : char = 'e' ∨ char = 'E'
      · rw [if_pos hmark, if_pos hmark]
        by_cases hdigits : (scanSign chars).2.takeWhile Char.isDigit = []
        · rw [if_pos hdigits, if_pos hdigits]
          exact .failure
        · rw [if_neg hdigits, if_neg hdigits, Option.map_eq_bind]
          refine Computes.bind (.toI64 rfl) fun magnitude hmagnitude ↦ ?_
          have hnonneg : 0 ≤ magnitude.toInt := by
            rw [(checkedI64_eq_some hmagnitude).1]
            exact Int.natCast_nonneg _
          dsimp only [Function.comp_apply]
          split_ifs
          · refine (computes_negI64 hnonneg).bind_some fun exponent hexponent ↦ ?_
            exact .pure (Prod.ext hexponent rfl)
          · exact .pure rfl
      · rw [if_neg hmark, if_neg hmark]
        exact .pure (Prod.ext Int64.toInt_zero rfl)

theorem computes_popZerosI64 (digits : List Char) (exponent : Int64) :
    Computes (fun found : List Char × Int64 ↦ (found.1, found.2.toInt))
      (popZerosI64 digits exponent) (popZeros digits exponent.toInt) := by
  induction digits generalizing exponent with
  | nil => exact .pure rfl
  | cons digit digits ih =>
      unfold popZerosI64 popZeros
      split_ifs
      · exact Computes.bind (.toI64 rfl) fun next _ ↦ ih next
      · exact .pure rfl

theorem computes_reduceDecimalI64 (negative : Bool) (digits : List Char) (exponent : Int64) :
    Computes MachineDecimal.exact (reduceDecimalI64 negative digits exponent)
      (reduceDecimal negative digits exponent.toInt) := by
  unfold reduceDecimalI64 reduceDecimal
  dsimp only
  split_ifs
  · exact .pure rfl
  · rw [Option.map_eq_bind]
    exact Computes.bind (computes_popZerosI64 _ exponent) fun reduced _ ↦ .pure rfl

theorem length_toList_le_utf8ByteSize (text : String) :
    text.toList.length ≤ text.utf8ByteSize := by
  have hencoded : ∀ chars : List Char, chars.length ≤ chars.utf8Encode.size := by
    intro chars
    induction chars with
    | nil => simp
    | cons char chars ih =>
        rw [List.utf8Encode_cons, ByteArray.size_append, List.length_cons]
        have hchar : 0 < [char].utf8Encode.size := by
          rw [List.utf8Encode_singleton]
          simpa using char.utf8Size_pos
        omega
  have hle := hencoded text.toList
  rwa [String.utf8Encode_toList] at hle

/-- The digits of a fraction are a part of the text. -/
theorem length_fracPart_le {text : String} {intPart fracPart behind rest : List Char}
    (hint : scanInteger (if text.toList.head? = some '-' then text.toList.tail else text.toList) =
      some (intPart, behind)) (hfrac : scanFraction behind = some (fracPart, rest)) :
    fracPart.length ≤ text.toList.length := by
  have hchars : (if text.toList.head? = some '-' then text.toList.tail
      else text.toList).length ≤ text.toList.length := by
    split_ifs
    · simp
    · rfl
  have hbehind := (scanFraction_spec hfrac).1
  rw [(scanInteger_spec hint).1, List.length_append] at hchars
  omega

/-- A text in memory has less than 2^63 bytes. -/
theorem computes_canonicalDecimalI64 {text : String} (hsize : text.utf8ByteSize < 2 ^ 63) :
    Computes MachineDecimal.exact (canonicalDecimalI64 text) (canonicalDecimal text) := by
  unfold canonicalDecimalI64 canonicalDecimal
  refine Computes.bind (.checked _) fun ⟨intPart, behind⟩ hint ↦ ?_
  refine Computes.bind (.checked _) fun ⟨fracPart, rest⟩ hfrac ↦ ?_
  refine Computes.bind (computes_scanExponentI64 _) fun ⟨expField, last⟩ _ ↦ ?_
  have hlength : fracPart.length < 2 ^ 63 :=
    calc fracPart.length ≤ text.toList.length := by
          simpa using length_fracPart_le (by simpa using hint) hfrac
      _ ≤ text.utf8ByteSize := length_toList_le_utf8ByteSize text
      _ < 2 ^ 63 := hsize
  dsimp only [id]
  split_ifs with hlast
  · refine (computes_castI64 hlength).bind_some fun fracLength hfracLength ↦ ?_
    rw [hfracLength]
    exact Computes.bind (.toI64 rfl) fun exponent _ ↦ computes_reduceDecimalI64 _ _ exponent
  · exact .failure

/-- Reducing two texts never overflows, and the decimals of two texts that are accepted are the
same exactly if the texts denote one rational number. -/
theorem canonicalDecimalI64_exact {left right : String} (hleft : left.utf8ByteSize < 2 ^ 63)
    (hright : right.utf8ByteSize < 2 ^ 63) :
    ∃ first second, (canonicalDecimalI64 left).run = .ok first ∧
      (canonicalDecimalI64 right).run = .ok second ∧
      ∀ x ∈ first, ∀ y ∈ second, (decimalValue left).isSome ∧ (decimalValue right).isSome ∧
        (x = y ↔ decimalValue left = decimalValue right) := by
  rcases computes_canonicalDecimalI64 hleft with ⟨first, hfirst, hexact⟩
  rcases computes_canonicalDecimalI64 hright with ⟨second, hsecond, hexact'⟩
  refine ⟨first, second, hfirst, hsecond, ?_⟩
  rintro x ⟨⟩ y ⟨⟩
  have hx : canonicalDecimal left = some x.exact := hexact.symm
  have hy : canonicalDecimal right = some y.exact := hexact'.symm
  refine ⟨by rw [decimalValue_of_canonicalDecimal hx]; rfl,
    by rw [decimalValue_of_canonicalDecimal hy]; rfl, ?_⟩
  rw [← canonicalDecimal_eq_iff hx hy]
  exact ⟨congrArg MachineDecimal.exact, MachineDecimal.exact_inj⟩

theorem canonicalDecimalI64_exact_scaled :
    ∃ first second, (canonicalDecimalI64 "-1.50").run = .ok first ∧
      (canonicalDecimalI64 "-15e-1").run = .ok second ∧
      ∀ x ∈ first, ∀ y ∈ second, (decimalValue "-1.50").isSome ∧ (decimalValue "-15e-1").isSome ∧
        (x = y ↔ decimalValue "-1.50" = decimalValue "-15e-1") :=
  canonicalDecimalI64_exact (by decide +kernel) (by decide +kernel)

end Deblob.Semantic
