import Mathlib.Data.List.Infix

/-!
# Segments of a text

A text is split at a separator into segments, and segments are joined with the separator. One split
is a prefix of another exactly if the texts are the same, or one continues the other after a
separator.
-/

namespace Deblob.Lib

variable {α : Type*} {sep : α}

theorem intercalate_append {segments others : List (List α)} (hsegments : segments ≠ [])
    (hothers : others ≠ []) :
    [sep].intercalate (segments ++ others) =
      [sep].intercalate segments ++ sep :: [sep].intercalate others := by
  induction segments with
  | nil => exact absurd rfl hsegments
  | cons segment segments ih =>
      cases segments with
      | nil =>
          rw [List.singleton_append, List.intercalate_cons_of_ne_nil hothers,
            List.intercalate_singleton, List.append_assoc, List.singleton_append]
      | cons next segments =>
          rw [List.cons_append, List.intercalate_cons_of_ne_nil (by simp),
            ih (List.cons_ne_nil _ _), List.intercalate_cons_of_ne_nil (List.cons_ne_nil _ _)]
          simp only [List.append_assoc]

variable [DecidableEq α]

/-- A segment has no separator in it. -/
theorem sep_notMem_of_mem_splitOn {text segment : List α} (hsegment : segment ∈ text.splitOn sep) :
    sep ∉ segment := by
  induction text generalizing segment with
  | nil =>
      rw [List.splitOn_nil, List.mem_singleton] at hsegment
      rw [hsegment]
      exact List.not_mem_nil
  | cons head text ih =>
      rw [List.splitOn_cons_eq_if_modifyHead] at hsegment
      split_ifs at hsegment with hhead
      · rcases List.mem_cons.mp hsegment with rfl | hrest
        · exact List.not_mem_nil
        · exact ih hrest
      · rcases List.exists_cons_of_ne_nil (List.splitOn_ne_nil sep text) with ⟨first, rest, hsplit⟩
        rw [hsplit, List.modifyHead_cons, List.mem_cons] at hsegment
        rw [hsplit, List.forall_mem_cons] at ih
        rcases hsegment with rfl | hrest
        · rw [List.mem_cons, not_or]
          exact ⟨fun heq ↦ hhead (beq_iff_eq.mpr heq.symm), ih.1⟩
        · exact ih.2 _ hrest

/-- A joined text is split where its segments are. -/
theorem splitOn_intercalate_eq_flatMap {segments : List (List α)} (hsegments : segments ≠ []) :
    ([sep].intercalate segments).splitOn sep = segments.flatMap (List.splitOn sep) := by
  induction segments with
  | nil => exact absurd rfl hsegments
  | cons segment segments ih =>
      cases segments with
      | nil => rw [List.intercalate_singleton, List.flatMap_singleton]
      | cons next segments =>
          rw [List.intercalate_cons_of_ne_nil (List.cons_ne_nil _ _), List.append_assoc,
            List.singleton_append, List.splitOn_append_cons_self, ih (List.cons_ne_nil _ _)]
          exact List.flatMap_cons.symm

/-- One split begins with another exactly if its text does, up to a separator. -/
theorem splitOn_prefix_iff {left right : List α} :
    left.splitOn sep <+: right.splitOn sep ↔ left = right ∨ left ++ [sep] <+: right := by
  constructor
  · rintro ⟨rest, hsplit⟩
    have hright : right = [sep].intercalate (left.splitOn sep ++ rest) := by
      rw [hsplit, List.intercalate_splitOn]
    by_cases hrest : rest = []
    · rw [hrest, List.append_nil, List.intercalate_splitOn] at hright
      exact .inl hright.symm
    · rw [intercalate_append (List.splitOn_ne_nil sep left) hrest, List.intercalate_splitOn]
        at hright
      exact .inr ⟨[sep].intercalate rest, by rw [hright, List.append_assoc, List.singleton_append]⟩
  · rintro (rfl | ⟨rest, rfl⟩)
    · exact List.prefix_rfl
    · rw [List.append_assoc, List.singleton_append, List.splitOn_append_cons_self]
      exact List.prefix_append _ _

end Deblob.Lib
