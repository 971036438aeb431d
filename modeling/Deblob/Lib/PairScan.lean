import Mathlib.Data.List.Perm.Basic
import Mathlib.Data.List.Pairwise

/-!
# Conflicting pairs

A list is scanned for a conflict between an entry and a later one. For a symmetric conflict the
answer is about the entries and not about their order.
-/

namespace Deblob.Lib

variable {α : Type*}

/-- An entry conflicts with a later one. -/
def hasConflict (conflicts : α → α → Bool) : List α → Bool
  | [] => false
  | entry :: entries => entries.any (conflicts entry) || hasConflict conflicts entries

theorem hasConflict_eq_false_iff (conflicts : α → α → Bool) (entries : List α) :
    hasConflict conflicts entries = false ↔
      entries.Pairwise fun left right ↦ conflicts left right = false := by
  induction entries with
  | nil => simp [hasConflict]
  | cons entry entries ih =>
      rw [hasConflict, Bool.or_eq_false_iff, ih, List.pairwise_cons, List.any_eq_false]
      simp only [Bool.not_eq_true]

section

variable {conflicts : α → α → Bool} (hsymm : ∀ left right, conflicts left right =
  conflicts right left)

include hsymm

/-- Of a symmetric conflict the order of the entries is not seen. -/
theorem hasConflict_perm {left right : List α} (hperm : left.Perm right) :
    hasConflict conflicts left = hasConflict conflicts right := by
  rw [← Bool.not_inj_iff, Bool.eq_iff_iff, Bool.not_eq_true', Bool.not_eq_true',
    hasConflict_eq_false_iff, hasConflict_eq_false_iff]
  exact hperm.pairwise_iff fun hclear ↦ (hsymm _ _).trans hclear

/-- Where no entry conflicts with itself, a conflict is one between any two entries. -/
theorem hasConflict_eq_true_iff {entries : List α}
    (hirrefl : ∀ entry ∈ entries, conflicts entry entry = false) :
    hasConflict conflicts entries = true ↔
      ∃ left ∈ entries, ∃ right ∈ entries, conflicts left right = true := by
  rw [← Bool.not_eq_false, hasConflict_eq_false_iff, not_iff_comm]
  simp only [not_exists, not_and, Bool.not_eq_true]
  constructor
  · intro hclear
    exact List.pairwise_of_forall_mem_list hclear
  · intro hpairwise
    have : Std.Symm fun left right ↦ conflicts left right = false :=
      ⟨fun left right hclear ↦ (hsymm right left).trans hclear⟩
    exact hpairwise.forall_of_forall hirrefl

end

end Deblob.Lib
