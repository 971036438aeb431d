import Mathlib.Algebra.Field.Rat
import Mathlib.Algebra.Order.Ring.Unbundled.Rat

/-!
# Number texts

A parsed number keeps the text it was written with. A text is read as an exact rational, as an
integer, or as the nearest 64-bit float.
-/

namespace Deblob.Core

def digitsValue (digits : List Char) : ℕ :=
  digits.foldl (fun value digit ↦ value * 10 + (digit.toNat - '0'.toNat)) 0

/-- Digits behind an optional sign. -/
def signedValue : List Char → Option ℤ
  | '-' :: digits =>
    if digits ≠ [] ∧ digits.all Char.isDigit then some (-(digitsValue digits : ℤ)) else none
  | '+' :: digits =>
    if digits ≠ [] ∧ digits.all Char.isDigit then some (digitsValue digits) else none
  | digits => if digits ≠ [] ∧ digits.all Char.isDigit then some (digitsValue digits) else none

/-- A decimal literal without its sign, as its digits and a power of ten. -/
def unsignedDecimal (chars : List Char) : Option (ℕ × ℤ) :=
  let integer := chars.takeWhile Char.isDigit
  let behind := chars.dropWhile Char.isDigit
  let fraction := if behind.head? = some '.' then behind.tail.takeWhile Char.isDigit else []
  let behind := if behind.head? = some '.' then behind.tail.dropWhile Char.isDigit else behind
  let exponent : Option ℤ := match behind with
    | [] => some 0
    | mark :: digits => if mark = 'e' ∨ mark = 'E' then signedValue digits else none
  if integer ++ fraction = [] then none
  else exponent.map fun exponent ↦
    (digitsValue (integer ++ fraction), exponent - (fraction.length : ℤ))

/-- The exact value of a decimal literal. -/
def decimalValue (text : String) : Option ℚ :=
  match text.toList with
  | '-' :: chars => (unsignedDecimal chars).map fun decimal ↦ -((decimal.1 : ℚ) * 10 ^ decimal.2)
  | chars => (unsignedDecimal chars).map fun decimal ↦ (decimal.1 : ℚ) * 10 ^ decimal.2

def nearestF64 (decimal : ℕ × ℤ) : Float :=
  .ofScientific decimal.1 (decimal.2 < 0) decimal.2.natAbs

/-- The float nearest to a decimal literal; it is infinite where the literal is too large. -/
def parseF64 (text : String) : Option Float :=
  match text.toList with
  | '-' :: chars => (unsignedDecimal chars).map fun decimal ↦ -nearestF64 decimal
  | chars => (unsignedDecimal chars).map nearestF64

def isI64Text (text : String) : Bool :=
  (signedValue text.toList).any fun value ↦ -2 ^ 63 ≤ value ∧ value < 2 ^ 63

def isU64Text (text : String) : Bool :=
  text.toList.head? ≠ some '-' && (signedValue text.toList).any fun value ↦ value < 2 ^ 64

/-- The nearest integer, and of two the even one. -/
def roundHalfEven (value : ℚ) : ℤ :=
  let below := value.floor
  let rest := value - below
  if rest < 1 / 2 ∨ (rest = 1 / 2 ∧ below % 2 = 0) then below else below + 1

/-- A number with a fixed count of decimals. -/
def formatFixed (places : ℕ) (value : ℚ) : String :=
  let digits := (toString (roundHalfEven (value * 10 ^ places)).natAbs).toList
  let padded := List.replicate (places + 1 - digits.length) '0' ++ digits
  let whole := padded.take (padded.length - places)
  let decimals := padded.drop (padded.length - places)
  (if value < 0 then "-" else "") ++ String.ofList whole ++
    if places = 0 then "" else "." ++ String.ofList decimals

example : formatFixed 6 (1 / 8) = "0.125000" := by decide +kernel

end Deblob.Core
