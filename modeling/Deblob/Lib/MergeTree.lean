import Mathlib.Algebra.BigOperators.Group.Multiset.Basic

/-!
# Merge trees

A finite collection of values is summarized by merging the summaries of its parts, in any grouping.
In a commutative monoid the result depends on the collection only.
-/

namespace Deblob.Lib

inductive MergeTree (α : Type*) where
  | empty
  | leaf (value : α)
  | node (left right : MergeTree α)

namespace MergeTree

variable {α M : Type*} [AddCommMonoid M]

/-- The merged values, with repetitions. -/
def values : MergeTree α → Multiset α
  | empty => 0
  | leaf value => {value}
  | node left right => left.values + right.values

/-- The merge of the summaries at the leaves. -/
def merged (summary : α → M) : MergeTree α → M
  | empty => 0
  | leaf value => summary value
  | node left right => left.merged summary + right.merged summary

theorem merged_eq_sum (summary : α → M) (tree : MergeTree α) :
    tree.merged summary = (tree.values.map summary).sum := by
  induction tree with
  | empty => rfl
  | leaf value =>
      rw [merged, values, Multiset.map_singleton, Multiset.sum_singleton]
  | node left right ihLeft ihRight =>
      rw [merged, values, Multiset.map_add, Multiset.sum_add, ihLeft, ihRight]

theorem merged_congr (summary : α → M) {left right : MergeTree α}
    (hvalues : left.values = right.values) : left.merged summary = right.merged summary := by
  rw [merged_eq_sum, merged_eq_sum, hvalues]

/-- Merging from the left, one value after the other. -/
theorem foldl_eq_sum (summary : α → M) (start : M) (values : List α) :
    values.foldl (fun acc value ↦ acc + summary value) start =
      start + ((values : Multiset α).map summary).sum := by
  induction values generalizing start with
  | nil => rw [List.foldl_nil, Multiset.coe_nil, Multiset.map_zero, Multiset.sum_zero, add_zero]
  | cons value values ih =>
      rw [List.foldl_cons, ih, ← Multiset.cons_coe, Multiset.map_cons, Multiset.sum_cons, add_assoc]

end MergeTree

end Deblob.Lib
