import Mathlib.Data.List.Sort

/-!
# Lists ranked by a comparison

A comparison that never ties on the items of a list ranks them in one way only: sorting gives the
one strictly increasing arrangement, whatever the order of the items, and cutting it keeps the best.
-/

namespace Deblob.Lib

section

variable {α : Type*} {cmp : α → α → Ordering}

/-- Sort with the best item first. -/
def rankBy (cmp : α → α → Ordering) (items : List α) : List α :=
  items.mergeSort fun left right ↦ (cmp left right).isLE

/-- Every item is strictly better than the ones behind it. -/
def Ranked (cmp : α → α → Ordering) (items : List α) : Prop :=
  items.Pairwise fun left right ↦ cmp left right = .lt

theorem rankBy_perm (items : List α) : (rankBy cmp items).Perm items :=
  List.mergeSort_perm items _

/-- What is kept is better than what is cut off. -/
theorem Ranked.take_lt_drop {items : List α} (hranked : Ranked cmp items) (k : ℕ) :
    ∀ kept ∈ items.take k, ∀ dropped ∈ items.drop k, cmp kept dropped = .lt := by
  unfold Ranked at hranked
  rw [← List.take_append_drop k items, List.pairwise_append] at hranked
  exact hranked.2.2

theorem map_rankBy {β : Type*} {other : β → β → Ordering} {view : β → α} {items : List β}
    (hview : ∀ left right, other left right = cmp (view left) (view right)) :
    (rankBy other items).map view = rankBy cmp (items.map view) := by
  apply List.map_mergeSort
  intro left _ right _
  rw [hview]

/-- Keeping some items and their keys keeps the order of the keys. -/
theorem sublist_map_filterMap {β K : Type*} {keep : α → Option β} {key : β → K} {name : α → K}
    (hkey : ∀ item kept, keep item = some kept → key kept = name item) (items : List α) :
    ((items.filterMap keep).map key).Sublist (items.map name) := by
  induction items with
  | nil => exact List.Sublist.slnil
  | cons item items ih =>
      cases hkeep : keep item with
      | none =>
          rw [List.filterMap_cons_none hkeep]
          exact ih.cons _
      | some kept =>
          rw [List.filterMap_cons_some hkeep, List.map_cons, List.map_cons, hkey item kept hkeep]
          exact ih.cons_cons _

variable [Std.TransCmp cmp]

/-- Sorting items of which no two tie ranks them strictly. -/
theorem ranked_rankBy {items : List α}
    (hstrict : items.Pairwise fun left right ↦ cmp left right ≠ .eq) :
    Ranked cmp (rankBy cmp items) := by
  have htotal (left right : α) : ((cmp left right).isLE || (cmp right left).isLE) = true := by
    rw [@Std.OrientedCmp.eq_swap _ cmp _ right]
    cases cmp left right <;> rfl
  have hsorted := @List.pairwise_mergeSort _ (fun left right ↦ (cmp left right).isLE)
    (fun _ _ _ ↦ Std.TransCmp.isLE_trans) htotal items
  have hne : (rankBy cmp items).Pairwise fun left right ↦ cmp left right ≠ .eq := by
    apply (rankBy_perm items).symm.pairwise hstrict
    intro left right hne heq
    exact hne (Std.OrientedCmp.eq_symm heq)
  apply (hsorted.and hne).imp
  rintro left right ⟨hle, hne⟩
  cases hcmp : cmp left right with
  | lt => rfl
  | eq => exact absurd hcmp hne
  | gt =>
      rw [hcmp] at hle
      cases hle

/-- There is only one strict ranking of some items. -/
theorem Ranked.eq_of_perm {left right : List α} (hleft : Ranked cmp left)
    (hright : Ranked cmp right) (hperm : left.Perm right) : left = right := by
  apply hperm.eq_of_pairwise _ hleft hright
  intro first second _ _ hlt hgt
  rw [Std.OrientedCmp.gt_of_lt hlt] at hgt
  cases hgt

/-- The ranking does not depend on the order of the items. -/
theorem rankBy_perm_eq {left right : List α}
    (hstrict : left.Pairwise fun left right ↦ cmp left right ≠ .eq) (hperm : left.Perm right) :
    rankBy cmp left = rankBy cmp right := by
  have hright : right.Pairwise fun left right ↦ cmp left right ≠ .eq := by
    apply hperm.pairwise hstrict
    intro first second hne heq
    exact hne (Std.OrientedCmp.eq_symm heq)
  apply (ranked_rankBy hstrict).eq_of_perm (ranked_rankBy hright)
  exact (rankBy_perm left).trans (hperm.trans (rankBy_perm right).symm)

end

end Deblob.Lib
