import Deblob.Lib.Groups
import Mathlib.Data.List.Perm.Basic

/-!
# The least items of every group

The items are grouped by name, and of every group the least ones are kept, up to a cap. Nothing is
lost: what is kept and what is dropped are the items. A group keeps as many as the cap allows, none
of them is greater than a dropped one, and the order of the items only decides between equal keys.
-/

namespace Deblob.Lib

variable {α F K : Type*} [LinearOrder F] [LinearOrder K]

/-- The items that are kept of every group, in the order of the names. -/
def keptOfGroups (name : α → F) (key : α → K) (cap : ℕ) (items : List α) : List α :=
  (groupOn name items).flatMap fun group ↦ (sortOn key group.2).take cap

def droppedOfGroups (name : α → F) (key : α → K) (cap : ℕ) (items : List α) : List α :=
  (groupOn name items).flatMap fun group ↦ (sortOn key group.2).drop cap

variable {name : α → F} {key : α → K} {cap : ℕ} {items : List α}

theorem flatMap_insertWith_perm (label : F) (item : α) (groups : List (F × List α)) :
    ((insertWith label [item] (· ++ [item]) groups).flatMap Prod.snd).Perm
      (groups.flatMap Prod.snd ++ [item]) := by
  induction groups with
  | nil => exact List.Perm.refl _
  | cons group groups ih =>
      rw [insertWith]
      split_ifs
      · rw [List.flatMap_cons]
        exact List.perm_append_comm
      · simp only [List.flatMap_cons, List.append_assoc]
        exact List.perm_append_comm.append_left group.2
      · simp only [List.flatMap_cons, List.append_assoc]
        exact ih.append_left group.2

theorem flatMap_groupOn_perm (name : α → F) (items : List α) :
    ((groupOn name items).flatMap Prod.snd).Perm items := by
  induction items using List.reverseRecOn with
  | nil => exact List.Perm.refl _
  | append_singleton items item ih =>
      rw [groupOn_concat]
      exact (flatMap_insertWith_perm _ _ _).trans (ih.append_right [item])

/-- The items of a group have its name. -/
theorem name_of_mem_groupOn {group : F × List α} (hgroup : group ∈ groupOn name items) {item : α}
    (hitem : item ∈ group.2) : name item = group.1 := by
  have hlookup := (sortedKeys_groupOn name items).mem_iff.mp
    (show (group.1, group.2) ∈ _ from hgroup)
  rw [lookup_groupOn] at hlookup
  split_ifs at hlookup
  rw [← Option.some.inj hlookup, List.mem_filter, decide_eq_true_eq] at hitem
  exact hitem.2

theorem flatMap_ite_eq_lookup {V : Type*} (select : V → List α) (label : F)
    {groups : List (F × V)} (hgroups : SortedKeys groups) :
    (groups.flatMap fun group ↦ if group.1 = label then select group.2 else []) =
      ((groups.lookup label).map select).getD [] := by
  induction groups with
  | nil => rfl
  | cons group groups ih =>
      have hrest := List.pairwise_cons.mp hgroups
      rw [List.flatMap_cons, ih hrest.2, lookup_cons_eq]
      by_cases hlabel : group.1 = label
      · subst hlabel
        rw [if_pos rfl, if_pos rfl, lookup_eq_none_of_lt hrest.1]
        simp
      · rw [if_neg hlabel, if_neg (Ne.symm hlabel), List.nil_append]

/-- A selection from every group, restricted to one name, is the selection from its items. -/
theorem filter_flatMap_groupOn (select : List α → List α) (hnil : select [] = [])
    (hsubset : ∀ items, select items ⊆ items) (label : F) :
    ((groupOn name items).flatMap fun group ↦ select group.2).filter
        (fun item ↦ name item = label) =
      select (items.filter fun item ↦ name item = label) := by
  have hone : ((groupOn name items).flatMap fun group ↦ select group.2).filter
      (fun item ↦ name item = label) =
      (groupOn name items).flatMap fun group ↦
        if group.1 = label then select group.2 else [] := by
    rw [List.filter_flatMap]
    refine List.flatMap_congr fun group hgroup ↦ ?_
    have hname : ∀ item ∈ select group.2, name item = group.1 := fun item hitem ↦
      name_of_mem_groupOn hgroup (hsubset _ hitem)
    split_ifs with hlabel
    · exact List.filter_eq_self.mpr fun item hitem ↦
        decide_eq_true ((hname item hitem).trans hlabel)
    · refine List.filter_eq_nil_iff.mpr fun item hitem heq ↦ hlabel ?_
      exact (hname item hitem).symm.trans (of_decide_eq_true heq)
  rw [hone, flatMap_ite_eq_lookup select label (sortedKeys_groupOn name items), lookup_groupOn]
  split_ifs with hempty
  · rw [hempty, hnil]
    rfl
  · rfl

theorem filter_keptOfGroups (label : F) :
    (keptOfGroups name key cap items).filter (fun item ↦ name item = label) =
      (sortOn key (items.filter fun item ↦ name item = label)).take cap :=
  filter_flatMap_groupOn (fun items ↦ (sortOn key items).take cap) (by simp [sortOn])
    (fun _ _ hitem ↦ mem_sortOn.mp (List.mem_of_mem_take hitem)) label

theorem filter_droppedOfGroups (label : F) :
    (droppedOfGroups name key cap items).filter (fun item ↦ name item = label) =
      (sortOn key (items.filter fun item ↦ name item = label)).drop cap :=
  filter_flatMap_groupOn (fun items ↦ (sortOn key items).drop cap) (by simp [sortOn])
    (fun _ _ hitem ↦ mem_sortOn.mp (List.mem_of_mem_drop hitem)) label

/-- Nothing is lost. -/
theorem kept_append_dropped_perm (name : α → F) (key : α → K) (cap : ℕ) (items : List α) :
    (keptOfGroups name key cap items ++ droppedOfGroups name key cap items).Perm items := by
  unfold keptOfGroups droppedOfGroups
  refine (List.flatMap_append_perm _ _ _).trans ?_
  simp only [List.take_append_drop]
  exact (List.Perm.flatMap_left _ fun group _ ↦ sortOn_perm key group.2).trans
    (flatMap_groupOn_perm name items)

theorem mem_of_mem_keptOfGroups {item : α} (hitem : item ∈ keptOfGroups name key cap items) :
    item ∈ items :=
  (kept_append_dropped_perm _ _ _ _).mem_iff.mp (List.mem_append_left _ hitem)

theorem mem_of_mem_droppedOfGroups {item : α}
    (hitem : item ∈ droppedOfGroups name key cap items) : item ∈ items :=
  (kept_append_dropped_perm _ _ _ _).mem_iff.mp (List.mem_append_right _ hitem)

/-- A group keeps as many items as the cap allows. -/
theorem length_filter_keptOfGroups (key : α → K) (label : F) :
    ((keptOfGroups name key cap items).filter fun item ↦ name item = label).length =
      min cap (items.filter fun item ↦ name item = label).length := by
  rw [filter_keptOfGroups, List.length_take, (sortOn_perm key _).length_eq]

/-- No kept item is greater than a dropped one of its group. -/
theorem key_le_of_mem_keptOfGroups {kept dropped : α}
    (hkept : kept ∈ keptOfGroups name key cap items)
    (hdropped : dropped ∈ droppedOfGroups name key cap items) (hname : name kept = name dropped) :
    key kept ≤ key dropped := by
  have hleft : kept ∈ (sortOn key (items.filter fun item ↦ name item = name dropped)).take cap := by
    rw [← filter_keptOfGroups, List.mem_filter]
    exact ⟨hkept, decide_eq_true hname⟩
  have hright : dropped ∈
      (sortOn key (items.filter fun item ↦ name item = name dropped)).drop cap := by
    rw [← filter_droppedOfGroups, List.mem_filter]
    exact ⟨hdropped, decide_eq_true rfl⟩
  have hsorted := pairwise_sortOn key (items.filter fun item ↦ name item = name dropped)
  rw [← List.take_append_drop cap (sortOn key _)] at hsorted
  exact (List.pairwise_append.mp hsorted).2.2 kept hleft dropped hright

/-- The keys of a sorted list do not depend on the order of the items. -/
theorem map_sortOn_eq_of_perm {left right : List α} (hperm : left.Perm right) :
    (sortOn key left).map key = (sortOn key right).map key := by
  have hkeys : ((sortOn key left).map key).Perm ((sortOn key right).map key) :=
    (((sortOn_perm key left).trans hperm).trans (sortOn_perm key right).symm).map key
  have hsorted (items : List α) : ((sortOn key items).map key).Pairwise (· ≤ ·) :=
    List.pairwise_map.mpr (pairwise_sortOn key items)
  exact hkeys.eq_of_pairwise (fun _ _ _ _ hle hge ↦ le_antisymm hle hge) (hsorted left)
    (hsorted right)

/-- The keys that a group keeps do not depend on the order of the items. -/
theorem map_filter_keptOfGroups_of_perm {others : List α} (hperm : items.Perm others)
    (label : F) :
    ((keptOfGroups name key cap items).filter fun item ↦ name item = label).map key =
      ((keptOfGroups name key cap others).filter fun item ↦ name item = label).map key := by
  rw [filter_keptOfGroups, filter_keptOfGroups, List.map_take, List.map_take,
    map_sortOn_eq_of_perm (hperm.filter _)]

/-- Of the items below a kept one, a group keeps all. -/
theorem filter_lt_keptOfGroups {bound : α} (hbound : bound ∈ keptOfGroups name key cap items) :
    ((keptOfGroups name key cap items).filter
        fun item ↦ name item = name bound ∧ key item < key bound).Perm
      (items.filter fun item ↦ name item = name bound ∧ key item < key bound) := by
  have hdropped : (droppedOfGroups name key cap items).filter
      (fun item ↦ name item = name bound ∧ key item < key bound) = [] := by
    refine List.filter_eq_nil_iff.mpr fun item hitem hless ↦ ?_
    rw [decide_eq_true_eq] at hless
    exact (key_le_of_mem_keptOfGroups hbound hitem hless.1.symm).not_gt hless.2
  have hperm := (kept_append_dropped_perm name key cap items).filter fun item ↦
    name item = name bound ∧ key item < key bound
  rwa [List.filter_append, hdropped, List.append_nil] at hperm

/-- The order of the items only decides between items whose key is the greatest that is kept. -/
theorem filter_lt_keptOfGroups_of_perm {others : List α} (hperm : items.Perm others) {bound : α}
    (hbound : bound ∈ keptOfGroups name key cap items) :
    ((keptOfGroups name key cap items).filter
        fun item ↦ name item = name bound ∧ key item < key bound).Perm
      ((keptOfGroups name key cap others).filter
        fun item ↦ name item = name bound ∧ key item < key bound) := by
  have hkeys : key bound ∈ ((keptOfGroups name key cap others).filter
      fun item ↦ name item = name bound).map key := by
    rw [← map_filter_keptOfGroups_of_perm hperm]
    exact List.mem_map_of_mem (List.mem_filter.mpr ⟨hbound, decide_eq_true rfl⟩)
  rcases List.mem_map.mp hkeys with ⟨other, hother, hkey⟩
  rw [List.mem_filter, decide_eq_true_eq] at hother
  have hleft := filter_lt_keptOfGroups hbound
  have hright := filter_lt_keptOfGroups hother.1
  rw [hother.2, hkey] at hright
  exact (hleft.trans (hperm.filter _)).trans hright.symm

/-- The names that are kept do not depend on the order of the items. -/
theorem map_name_keptOfGroups_perm (name : α → F) (key : α → K) (cap : ℕ) {others : List α}
    (hperm : items.Perm others) :
    ((keptOfGroups name key cap items).map name).Perm
      ((keptOfGroups name key cap others).map name) := by
  have hcount (items : List α) (label : F) :
      ((keptOfGroups name key cap items).map name).count label =
        min cap (items.filter fun item ↦ name item = label).length := by
    rw [← length_filter_keptOfGroups key, List.count, List.countP_map,
      List.countP_eq_length_filter]
    exact congrArg List.length (List.filter_congr fun _ _ ↦ beq_eq_decide _ _)
  refine List.perm_iff_count.mpr fun label ↦ ?_
  rw [hcount, hcount, (hperm.filter _).length_eq]

theorem length_droppedOfGroups_of_perm {others : List α} (hperm : items.Perm others) :
    (droppedOfGroups name key cap items).length = (droppedOfGroups name key cap others).length := by
  have hkept := (map_name_keptOfGroups_perm name key cap hperm).length_eq
  rw [List.length_map, List.length_map] at hkept
  have htotal (items : List α) : (keptOfGroups name key cap items).length +
      (droppedOfGroups name key cap items).length = items.length := by
    rw [← List.length_append, (kept_append_dropped_perm _ _ _ _).length_eq]
  have hlength := hperm.length_eq
  rw [← htotal items, ← htotal others, hkept] at hlength
  exact Nat.add_left_cancel hlength

/-! ## Items that carry their key -/

section

variable {β : Type*} (view : β → α)

theorem insertWith_map (label : F) (item : β) (groups : List (F × List β)) :
    insertWith label [view item] (· ++ [view item])
        (groups.map fun group ↦ (group.1, group.2.map view)) =
      (insertWith label [item] (· ++ [item]) groups).map
        fun group ↦ (group.1, group.2.map view) := by
  induction groups with
  | nil => rfl
  | cons group groups ih =>
      rw [List.map_cons, insertWith, insertWith]
      split_ifs
      · rfl
      · rw [List.map_cons, List.map_append]
        rfl
      · rw [List.map_cons, ih]

theorem groupOn_map (name : α → F) (items : List β) :
    groupOn name (items.map view) =
      (groupOn (fun item ↦ name (view item)) items).map
        fun group ↦ (group.1, group.2.map view) := by
  induction items using List.reverseRecOn with
  | nil => rfl
  | append_singleton items item ih =>
      rw [List.map_append, List.map_singleton, groupOn_concat, groupOn_concat, ih,
        insertWith_map]

theorem sortOn_map (key : α → K) (items : List β) :
    sortOn key (items.map view) = (sortOn (fun item ↦ key (view item)) items).map view :=
  (List.map_mergeSort (f := view) fun _ _ _ _ ↦ rfl).symm

end

end Deblob.Lib
