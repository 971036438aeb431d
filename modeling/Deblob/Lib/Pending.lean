import Mathlib.Data.List.Perm.Basic

/-!
# Work in progress

Calls that take several steps wait in a list. A step picks one of them by position and replaces it
by what it does next, if anything; the others stay as they are.
-/

namespace Deblob.Lib

variable {α : Type*}

/-- Replace the item at `position` by what is left of it. -/
def replaceAt (pending : List α) (position : ℕ) (next : Option α) : List α :=
  next.toList ++ pending.eraseIdx position

theorem mem_pending {pending : List α} {position : ℕ} {item : α}
    (hposition : pending[position]? = some item) (other : α) :
    other ∈ pending ↔ other = item ∨ other ∈ pending.eraseIdx position := by
  obtain ⟨hlt, rfl⟩ := List.getElem?_eq_some_iff.mp hposition
  rw [← (List.getElem_cons_eraseIdx_perm hlt).mem_iff, List.mem_cons]

theorem mem_replaceAt {pending : List α} {position : ℕ} {next : Option α} {other : α} :
    other ∈ replaceAt pending position next ↔
      next = some other ∨ other ∈ pending.eraseIdx position := by
  simp [replaceAt]

/-- Whatever is pending afterwards is the replacement or was pending before. -/
theorem of_mem_replaceAt {pending : List α} {position : ℕ} {next : Option α} {other : α}
    (hmem : other ∈ replaceAt pending position next) : next = some other ∨ other ∈ pending :=
  (mem_replaceAt.mp hmem).imp_right List.mem_of_mem_eraseIdx

/-- An item that is pending is related to the others, if all that are pending are related. -/
theorem pairwise_pending {related : α → α → Prop}
    (hsymm : ∀ left right, related left right → related right left) {pending : List α}
    {position : ℕ} {item : α} (hposition : pending[position]? = some item)
    (hpairwise : pending.Pairwise related) :
    (item :: pending.eraseIdx position).Pairwise related := by
  obtain ⟨hlt, rfl⟩ := List.getElem?_eq_some_iff.mp hposition
  exact ((List.getElem_cons_eraseIdx_perm hlt).pairwise_iff fun {_ _} ↦ hsymm _ _).mpr hpairwise

theorem countP_pending {pending : List α} {position : ℕ} {item : α}
    (hposition : pending[position]? = some item) (keep : α → Bool) :
    pending.countP keep = [item].countP keep + (pending.eraseIdx position).countP keep := by
  obtain ⟨hlt, rfl⟩ := List.getElem?_eq_some_iff.mp hposition
  rw [← (List.getElem_cons_eraseIdx_perm hlt).countP_eq, ← List.countP_append]
  rfl

/-- The values of what is pending, with those of one item in front. -/
theorem filterMap_pending {β : Type*} {pending : List α} {position : ℕ} {item : α}
    (hposition : pending[position]? = some item) (value : α → Option β) :
    (pending.filterMap value).Perm
      ((value item).toList ++ (pending.eraseIdx position).filterMap value) := by
  obtain ⟨hlt, rfl⟩ := List.getElem?_eq_some_iff.mp hposition
  have hperm := (List.getElem_cons_eraseIdx_perm hlt).symm.filterMap value
  rw [List.filterMap_cons] at hperm
  cases hvalue : value pending[position] <;> rw [hvalue] at hperm <;> exact hperm

theorem countP_replaceAt (pending : List α) (position : ℕ) (next : Option α) (keep : α → Bool) :
    (replaceAt pending position next).countP keep =
      next.toList.countP keep + (pending.eraseIdx position).countP keep :=
  List.countP_append

end Deblob.Lib
