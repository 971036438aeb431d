import Mathlib.Data.Finset.Dedup
import Mathlib.Data.List.Sort

/-!
# Lists sorted by distinct keys

A list of entries with distinct keys, sorted by them, is determined by which entries it has. So two
lists of items written through a code are sorted alike exactly if they have the same set of images
under any other view that tells the same items apart. A condition selects exactly one entry if all
that meet it have one key.
-/

namespace Deblob.Lib

section

variable {K V : Type*} [LinearOrder K]

def sortByKey (entries : List (K × V)) : List (K × V) :=
  entries.mergeSort fun left right ↦ decide (left.1 ≤ right.1)

/-- Two neighbors of a list are equal. -/
def repeats : List K → Bool
  | first :: second :: keys => decide (first = second) || repeats (second :: keys)
  | _ => false

theorem sortByKey_perm (entries : List (K × V)) : (sortByKey entries).Perm entries :=
  List.mergeSort_perm entries _

@[simp]
theorem mem_sortByKey {entries : List (K × V)} {entry : K × V} :
    entry ∈ sortByKey entries ↔ entry ∈ entries :=
  (sortByKey_perm entries).mem_iff

@[simp]
theorem length_sortByKey (entries : List (K × V)) : (sortByKey entries).length = entries.length :=
  (sortByKey_perm entries).length_eq

theorem pairwise_sortByKey (entries : List (K × V)) :
    (sortByKey entries).Pairwise fun left right ↦ left.1 ≤ right.1 := by
  have htrans : ∀ a b c : K × V, decide (a.1 ≤ b.1) = true → decide (b.1 ≤ c.1) = true →
      decide (a.1 ≤ c.1) = true := by
    intro a b c hab hbc
    rw [decide_eq_true_eq] at hab hbc ⊢
    exact hab.trans hbc
  have htotal : ∀ a b : K × V, (decide (a.1 ≤ b.1) || decide (b.1 ≤ a.1)) = true := by
    intro a b
    rw [Bool.or_eq_true, decide_eq_true_eq, decide_eq_true_eq]
    exact le_total a.1 b.1
  have hsorted := List.pairwise_mergeSort htrans htotal entries
  exact hsorted.imp fun hle ↦ of_decide_eq_true hle

/-- Sorted keys of which no two neighbors are equal are distinct. -/
theorem nodup_of_repeats {keys : List K} (hsorted : keys.Pairwise (· ≤ ·))
    (hrepeats : repeats keys = false) : keys.Nodup := by
  induction keys with
  | nil => exact List.nodup_nil
  | cons first keys ih =>
      cases keys with
      | nil => exact List.nodup_singleton first
      | cons second keys =>
          rw [repeats, Bool.or_eq_false_iff, decide_eq_false_iff_not] at hrepeats
          rcases List.pairwise_cons.mp hsorted with ⟨hhead, htail⟩
          refine List.nodup_cons.mpr ⟨fun hmem ↦ ?_, ih htail hrepeats.2⟩
          have hlt : first < second :=
            lt_of_le_of_ne (hhead second List.mem_cons_self) hrepeats.1
          have hle : second ≤ first := by
            rcases List.mem_cons.mp hmem with rfl | hmem
            · exact le_rfl
            · exact (List.pairwise_cons.mp htail).1 first hmem
          exact absurd hle (not_le.mpr hlt)

theorem sortByKey_eq_iff {left right : List (K × V)} (hleft : (left.map Prod.fst).Nodup)
    (hright : (right.map Prod.fst).Nodup) :
    sortByKey left = sortByKey right ↔ ∀ entry, entry ∈ left ↔ entry ∈ right := by
  constructor
  · intro heq entry
    rw [← mem_sortByKey, heq, mem_sortByKey]
  · intro hmem
    have hperm : (sortByKey left).Perm (sortByKey right) := by
      apply ((sortByKey_perm left).trans _).trans (sortByKey_perm right).symm
      exact (List.perm_ext_iff_of_nodup (hleft.of_map) (hright.of_map)).mpr hmem
    apply hperm.eq_of_pairwise _ (pairwise_sortByKey left) (pairwise_sortByKey right)
    intro entry other hentry hother hle hge
    -- two entries under one key are the same entry
    have hmemEntry := mem_sortByKey.mp hentry
    have hmemOther := (hmem other).mpr (mem_sortByKey.mp hother)
    exact List.inj_on_of_nodup_map hleft hmemEntry hmemOther (le_antisymm hle hge)

end

/-- Two views that tell the same items apart see the same images in two lists. -/
theorem mem_map_iff_toFinset {α K N : Type*} [DecidableEq N] {code : α → K} {norm : α → N}
    {left right : List α}
    (hviews : ∀ item ∈ left, ∀ other ∈ right, code item = code other ↔ norm item = norm other) :
    (∀ image, image ∈ left.map code ↔ image ∈ right.map code) ↔
      (left.map norm).toFinset = (right.map norm).toFinset := by
  rw [Finset.ext_iff]
  simp only [List.mem_toFinset, List.mem_map]
  constructor
  · intro hcodes image
    constructor
    · rintro ⟨item, hitem, rfl⟩
      rcases (hcodes (code item)).mp ⟨item, hitem, rfl⟩ with ⟨other, hother, hcode⟩
      exact ⟨other, hother, ((hviews item hitem other hother).mp hcode.symm).symm⟩
    · rintro ⟨other, hother, rfl⟩
      rcases (hcodes (code other)).mpr ⟨other, hother, rfl⟩ with ⟨item, hitem, hcode⟩
      exact ⟨item, hitem, (hviews item hitem other hother).mp hcode⟩
  · intro hnorms image
    constructor
    · rintro ⟨item, hitem, rfl⟩
      rcases (hnorms (norm item)).mp ⟨item, hitem, rfl⟩ with ⟨other, hother, hnorm⟩
      exact ⟨other, hother, ((hviews item hitem other hother).mpr hnorm.symm).symm⟩
    · rintro ⟨other, hother, rfl⟩
      rcases (hnorms (norm other)).mpr ⟨other, hother, rfl⟩ with ⟨item, hitem, hnorm⟩
      exact ⟨item, hitem, (hviews item hitem other hother).mpr hnorm⟩

/-- Of items with different keys one is selected exactly if all selected ones have its key. -/
theorem filter_eq_singleton_iff {α β : Type*} {key : α → β} (selects : α → Bool) {items : List α}
    (hkeys : items.Pairwise fun left right ↦ key left ≠ key right) :
    (∃ only, items.filter selects = [only]) ↔
      ∃ only ∈ items, selects only ∧ ∀ other ∈ items, selects other → key other = key only := by
  have hmem (item : α) : item ∈ items.filter selects ↔ item ∈ items ∧ selects item :=
    List.mem_filter
  have hfiltered := hkeys.sublist (List.filter_sublist (p := selects))
  constructor
  · rintro ⟨only, honly⟩
    rw [honly] at hmem
    have hself := (hmem only).mp (List.mem_singleton_self _)
    refine ⟨only, hself.1, hself.2, fun other hother hselects ↦ ?_⟩
    rw [List.mem_singleton.mp ((hmem other).mpr ⟨hother, hselects⟩)]
  · rintro ⟨only, honly, hselects, hunique⟩
    generalize items.filter selects = selected at hmem hfiltered
    cases selected with
    | nil => exact absurd ((hmem only).mpr ⟨honly, hselects⟩) List.not_mem_nil
    | cons first rest =>
        cases rest with
        | nil => exact ⟨first, rfl⟩
        | cons second rest =>
            exfalso
            have hsame (item : α) (hitem : item ∈ first :: second :: rest) : key item = key only :=
              hunique item ((hmem item).mp hitem).1 ((hmem item).mp hitem).2
            refine (List.pairwise_cons.mp hfiltered).1 second List.mem_cons_self ?_
            rw [hsame first List.mem_cons_self,
              hsame second (List.mem_cons_of_mem _ List.mem_cons_self)]

end Deblob.Lib
