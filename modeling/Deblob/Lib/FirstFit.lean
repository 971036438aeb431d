import Mathlib.Data.List.Induction
import Mathlib.Data.List.Pairwise

/-!
# First fit

Items are taken one after another if they fit with all that were taken before. The items taken fit
in pairs, an item that was refused comes after one it does not fit with, and any rule with these two
properties takes the same items.
-/

namespace Deblob.Lib

variable {α κ : Type*} (fits : α → α → Prop) [DecidableRel fits]

/-- The items that fit with every item taken before them. -/
def firstFit (items : List α) : List α :=
  (items.reverse.pwFilter fun later earlier ↦ fits earlier later).reverse

@[simp]
theorem firstFit_nil : firstFit fits [] = [] := rfl

theorem firstFit_concat (items : List α) (item : α) :
    firstFit fits (items ++ [item]) =
      if ∀ taken ∈ firstFit fits items, fits taken item then firstFit fits items ++ [item]
      else firstFit fits items := by
  unfold firstFit
  rw [List.reverse_append, List.reverse_singleton, List.singleton_append]
  simp only [List.mem_reverse]
  split_ifs with hfits
  · rw [List.pwFilter_cons_of_pos hfits, List.reverse_cons]
  · rw [List.pwFilter_cons_of_neg hfits]

theorem firstFit_sublist (items : List α) : (firstFit fits items).Sublist items := by
  rw [← List.reverse_sublist, firstFit, List.reverse_reverse]
  exact List.pwFilter_sublist _

/-- The items taken fit in pairs. -/
theorem pairwise_firstFit (items : List α) : (firstFit fits items).Pairwise fits :=
  List.pairwise_reverse.mpr (List.pairwise_pwFilter _)

variable {fits}

/-- What was taken stays taken. -/
theorem firstFit_append {before : List α} {taken : α} (htaken : taken ∈ firstFit fits before)
    (after : List α) : taken ∈ firstFit fits (before ++ after) := by
  induction after using List.reverseRecOn with
  | nil => rwa [List.append_nil]
  | append_singleton after item ih =>
      rw [← List.append_assoc, firstFit_concat]
      split_ifs
      · exact List.mem_append_left _ ih
      · exact ih

/-- An item that is refused comes after an item it does not fit with. -/
theorem firstFit_refused (before : List α) (item : α) (after : List α) :
    item ∈ firstFit fits (before ++ item :: after) ∨
      ∃ taken ∈ firstFit fits (before ++ item :: after), taken ∈ before ∧ ¬ fits taken item := by
  rw [List.append_cons]
  by_cases hfits : ∀ taken ∈ firstFit fits before, fits taken item
  · left
    apply firstFit_append
    rw [firstFit_concat, if_pos hfits]
    exact List.mem_concat_self
  · right
    push Not at hfits
    rcases hfits with ⟨taken, htaken, hclash⟩
    refine ⟨taken, ?_, (firstFit_sublist fits before).subset htaken, hclash⟩
    rw [List.append_assoc]
    exact firstFit_append htaken _

/-- A rule under which items that do not fit have one key, and every other item comes after one it
does not fit with, is first fit up to items of equal keys. -/
theorem firstFit_of_rule {key : α → κ} {picks : α → Prop} {items : List α}
    (hkey : ∀ left right item, key left = key right → fits left item → fits right item)
    (hpicks : ∀ left ∈ items, ∀ right ∈ items, picks left → picks right → ¬ fits left right →
      key left = key right)
    (hrefused : ∀ before item after, items = before ++ item :: after → ¬ picks item →
      ∃ earlier ∈ before, picks earlier ∧ ¬ fits earlier item) :
    (∀ taken ∈ firstFit fits items, picks taken) ∧
      ∀ item ∈ items, picks item → ∃ taken ∈ firstFit fits items, key taken = key item := by
  induction items using List.reverseRecOn with
  | nil => simp
  | append_singleton items item ih =>
      have hsubset : ∀ other ∈ items, other ∈ items ++ [item] := fun other hother ↦
        List.mem_append_left _ hother
      rcases ih (fun left hleft right hright ↦ hpicks left (hsubset left hleft) right
          (hsubset right hright))
        (fun before other after heq ↦ hrefused before other (after ++ [item]) (by simp [heq]))
        with ⟨htaken, hpicked⟩
      rw [firstFit_concat]
      split_ifs with hfits
      · constructor
        · intro taken hmem
          rcases List.mem_append.mp hmem with hmem | hmem
          · exact htaken taken hmem
          · rw [List.mem_singleton.mp hmem]
            -- the key of an earlier pick that clashes was taken before
            by_contra hnot
            rcases hrefused items item [] rfl hnot with ⟨earlier, hearlier, hpick, hclash⟩
            rcases hpicked earlier hearlier hpick with ⟨other, hother, heq⟩
            exact hclash (hkey other earlier item heq (hfits other hother))
        · intro other hmem hpick
          rcases List.mem_append.mp hmem with hmem | hmem
          · rcases hpicked other hmem hpick with ⟨taken, htaken, heq⟩
            exact ⟨taken, List.mem_append_left _ htaken, heq⟩
          · exact ⟨other, List.mem_append_right _ hmem, rfl⟩
      · refine ⟨htaken, fun other hmem hpick ↦ ?_⟩
        rcases List.mem_append.mp hmem with hmem | hmem
        · exact hpicked other hmem hpick
        · rw [List.mem_singleton] at hmem
          subst hmem
          push Not at hfits
          rcases hfits with ⟨taken, hmem, hclash⟩
          have hitems := (firstFit_sublist fits items).subset hmem
          exact ⟨taken, hmem, hpicks taken (hsubset taken hitems) other List.mem_concat_self
            (htaken taken hmem) hpick hclash⟩

end Deblob.Lib
