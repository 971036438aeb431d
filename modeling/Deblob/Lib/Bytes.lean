import Deblob.Lib.PrefixCode
import Mathlib.Algebra.GroupWithZero.Nat
import Mathlib.Data.List.Lex
import Mathlib.Order.Basic

/-!
# Byte strings

Bytes are ordered by their numbers, so that byte strings are ordered lexicographically. A number is
written big-endian in a fixed width, which drops what does not fit. A byte string is written after
its length in four bytes and a list after its number of items in four bytes; both are read back as
long as the number fits.
-/

namespace Deblob.Lib

instance instLinearOrderUInt8 : LinearOrder UInt8 :=
  LinearOrder.lift' UInt8.toNat fun _ _ ↦ UInt8.toNat_inj.mp

/-- The lowest `width` bytes of a number, the most significant one first. -/
def bigEndian : ℕ → ℕ → List UInt8
  | 0, _ => []
  | width + 1, number => bigEndian width (number / 256) ++ [UInt8.ofNat number]

/-- A byte string after its length as 32 bits. -/
def lengthPrefixed (bytes : List UInt8) : List UInt8 := bigEndian 4 bytes.length ++ bytes

/-- The codes of the items of a list after their number as 32 bits. -/
def counted {α : Type*} (enc : α → List UInt8) (items : List α) : List UInt8 :=
  bigEndian 4 items.length ++ items.flatMap enc

@[simp]
theorem length_bigEndian (width number : ℕ) : (bigEndian width number).length = width := by
  induction width generalizing number with
  | zero => rfl
  | succ width ih => simp [bigEndian, ih]

/-- Two numbers are written alike exactly if they agree on what fits. -/
theorem bigEndian_inj {width left right : ℕ} :
    bigEndian width left = bigEndian width right ↔ left % 256 ^ width = right % 256 ^ width := by
  induction width generalizing left right with
  | zero => simp [bigEndian, Nat.mod_one]
  | succ width ih =>
      have hbyte : UInt8.ofNat left = UInt8.ofNat right ↔ left % 256 = right % 256 := by
        rw [← UInt8.toNat_inj]
        simp
      have hsplit (number : ℕ) : number % 256 ^ (width + 1) =
          number % 256 + 256 * (number / 256 % 256 ^ width) := by
        rw [Nat.pow_succ', Nat.mod_mul]
      unfold bigEndian
      rw [List.append_singleton_inj, ih, hbyte, hsplit, hsplit]
      omega

theorem bigEndian_inj_of_lt {width left right : ℕ} (hleft : left < 256 ^ width)
    (hright : right < 256 ^ width) :
    bigEndian width left = bigEndian width right ↔ left = right := by
  rw [bigEndian_inj, Nat.mod_eq_of_lt hleft, Nat.mod_eq_of_lt hright]

theorem bigEndian_readsBackOn (width : ℕ) :
    ReadsBackOn (· < 256 ^ width) (bigEndian width) :=
  .of_length (by simp) fun _ _ hvalue hother ↦ (bigEndian_inj_of_lt hvalue hother).mp

theorem lengthPrefixed_readsBackOn :
    ReadsBackOn (fun bytes ↦ bytes.length < 256 ^ 4) lengthPrefixed := by
  intro value other hvalue hother rest left heq
  simp only [lengthPrefixed, List.append_assoc] at heq
  rcases bigEndian_readsBackOn 4 _ _ hvalue hother _ _ heq with ⟨hlength, htail⟩
  exact List.append_inj htail hlength

theorem counted_readsBackOn {α : Type*} {dom : α → Prop} {enc : α → List UInt8}
    (henc : ReadsBackOn dom enc) :
    ReadsBackOn (fun items : List α ↦ items.length < 256 ^ 4 ∧ ∀ item ∈ items, dom item)
      (counted enc) := by
  intro value other hvalue hother rest left heq
  simp only [counted, List.append_assoc] at heq
  rcases bigEndian_readsBackOn 4 _ _ hvalue.1 hother.1 _ _ heq with ⟨hlength, htail⟩
  exact henc.flatMap hvalue.2 hother.2 hlength htail

end Deblob.Lib
