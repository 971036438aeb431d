import Deblob.Lib.CappedGroups
import Mathlib.Order.MinMax

/-!
# Groups in an order of their own

The names of groups are sorted by a key that tells them apart, so the order in which they were found
does not matter. The groups of all names, in any order, are the items.
-/

namespace Deblob.Lib

variable {α F K : Type*} [LinearOrder F] [LinearOrder K]

/-- Keys that tell the items apart leave no choice to the sort. -/
theorem sortOn_eq_of_perm {key : α → K} {left right : List α} (hperm : left.Perm right)
    (hdistinct : left.Pairwise fun first second ↦ key first ≠ key second) :
    sortOn key left = sortOn key right := by
  have hright : right.Pairwise fun first second ↦ key first ≠ key second :=
    hperm.pairwise hdistinct fun hne ↦ hne.symm
  refine eq_of_pairwise_lt (pairwise_lt_sortOn hdistinct) (pairwise_lt_sortOn hright) fun item ↦ ?_
  rw [mem_sortOn, mem_sortOn, hperm.mem_iff]

theorem min?_eq_of_perm {left right : List K} (hperm : left.Perm right) :
    left.min? = right.min? := by
  refine Option.ext fun least ↦ ?_
  rw [List.min?_eq_some_iff, List.min?_eq_some_iff, hperm.mem_iff]
  simp only [hperm.mem_iff]

/-- The groups of all names are the items. -/
theorem flatMap_filter_perm {name : α → F} {items : List α} {labels : List F}
    (hnodup : labels.Nodup) (hmem : ∀ label, label ∈ labels ↔ ∃ item ∈ items, name item = label) :
    (labels.flatMap fun label ↦ items.filter fun item ↦ name item = label).Perm items := by
  have hgroups := sortedKeys_groupOn name items
  have hgroup : ∀ group ∈ groupOn name items,
      (items.filter fun item ↦ name item = group.1) = group.2 ∧ group.2 ≠ [] := by
    intro group hgroup
    have hlookup := hgroups.mem_iff.mp (show (group.1, group.2) ∈ _ from hgroup)
    rw [lookup_groupOn] at hlookup
    split_ifs at hlookup with hempty
    have heq := Option.some.inj hlookup
    exact ⟨heq, heq ▸ hempty⟩
  have hlabels : labels.Perm ((groupOn name items).map Prod.fst) := by
    refine (List.perm_ext_iff_of_nodup hnodup hgroups.nodup_keys).mpr fun label ↦ ?_
    rw [hmem, List.mem_map]
    constructor
    · rintro ⟨item, hitem, rfl⟩
      have hne : (items.filter fun other ↦ name other = name item) ≠ [] :=
        List.ne_nil_of_mem (List.mem_filter.mpr ⟨hitem, decide_eq_true rfl⟩)
      refine ⟨(name item, items.filter fun other ↦ name other = name item),
        hgroups.mem_iff.mpr ?_, rfl⟩
      rw [lookup_groupOn, if_neg hne]
    · rintro ⟨group, hmember, rfl⟩
      rcases List.exists_mem_of_ne_nil _ (hgroup group hmember).2 with ⟨item, hitem⟩
      rw [← (hgroup group hmember).1, List.mem_filter, decide_eq_true_eq] at hitem
      exact ⟨item, hitem.1, hitem.2⟩
  refine (hlabels.flatMap_right _).trans ?_
  rw [List.flatMap_map]
  have hsame : ((groupOn name items).flatMap fun group ↦
      items.filter fun item ↦ name item = group.1) = (groupOn name items).flatMap Prod.snd :=
    List.flatMap_congr fun group hmember ↦ (hgroup group hmember).1
  rw [hsame]
  exact flatMap_groupOn_perm name items

end Deblob.Lib
