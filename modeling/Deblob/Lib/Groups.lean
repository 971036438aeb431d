import Deblob.Lib.SortedMap

/-!
# Groups and their least items

Items are sorted by a key, or collected in groups that are ordered by name. Taking the least item of
every group leaves one item for each name.
-/

namespace Deblob.Lib

variable {α F K : Type*} [LinearOrder F] [LinearOrder K]

/-- Items of equal keys keep their order. -/
def sortOn (key : α → K) (items : List α) : List α :=
  items.mergeSort fun left right ↦ decide (key left ≤ key right)

theorem sortOn_perm (key : α → K) (items : List α) : (sortOn key items).Perm items :=
  List.mergeSort_perm items _

@[simp]
theorem mem_sortOn {key : α → K} {items : List α} {item : α} :
    item ∈ sortOn key items ↔ item ∈ items :=
  (sortOn_perm key items).mem_iff

theorem pairwise_sortOn (key : α → K) (items : List α) :
    (sortOn key items).Pairwise fun left right ↦ key left ≤ key right := by
  have htrans : ∀ a b c : α, decide (key a ≤ key b) = true → decide (key b ≤ key c) = true →
      decide (key a ≤ key c) = true := by
    intro a b c hab hbc
    rw [decide_eq_true_eq] at hab hbc ⊢
    exact hab.trans hbc
  have htotal : ∀ a b : α, (decide (key a ≤ key b) || decide (key b ≤ key a)) = true := by
    intro a b
    rw [Bool.or_eq_true, decide_eq_true_eq, decide_eq_true_eq]
    exact le_total (key a) (key b)
  exact (List.pairwise_mergeSort htrans htotal items).imp fun hle ↦ of_decide_eq_true hle

theorem sortOn_of_pairwise {key : α → K} {items : List α}
    (hsorted : items.Pairwise fun left right ↦ key left ≤ key right) : sortOn key items = items :=
  List.mergeSort_of_pairwise (hsorted.imp fun hle ↦ decide_eq_true hle)

/-- Items of distinct keys are sorted strictly. -/
theorem pairwise_lt_sortOn {key : α → K} {items : List α}
    (hdistinct : items.Pairwise fun left right ↦ key left ≠ key right) :
    (sortOn key items).Pairwise fun left right ↦ key left < key right := by
  have hne := (sortOn_perm key items).symm.pairwise hdistinct fun hne ↦ hne.symm
  exact ((pairwise_sortOn key items).and hne).imp fun hpair ↦ hpair.1.lt_of_ne hpair.2

/-- Strictly sorted items are known by their members. -/
theorem eq_of_pairwise_lt {key : α → K} {left right : List α}
    (hleft : left.Pairwise fun left right ↦ key left < key right)
    (hright : right.Pairwise fun left right ↦ key left < key right)
    (hmem : ∀ item, item ∈ left ↔ item ∈ right) : left = right := by
  have hnodup {items : List α} (hitems : items.Pairwise fun left right ↦ key left < key right) :
      items.Nodup := hitems.imp fun hlt heq ↦ hlt.ne (congrArg key heq)
  have hperm := (List.perm_ext_iff_of_nodup (hnodup hleft) (hnodup hright)).mpr hmem
  refine hperm.eq_of_pairwise ?_ hleft hright
  intro first second _ _ hlt hgt
  exact absurd hgt hlt.asymm

/-- The first of the sorted items is a least one. -/
theorem head?_sortOn {key : α → K} {items : List α} {least : α}
    (hhead : (sortOn key items).head? = some least) :
    least ∈ items ∧ ∀ item ∈ items, key least ≤ key item := by
  rcases List.head?_eq_some_iff.mp hhead with ⟨rest, hrest⟩
  have hsorted := pairwise_sortOn key items
  rw [hrest, List.pairwise_cons] at hsorted
  constructor
  · rw [← @mem_sortOn _ _ _ key, hrest]
    exact List.mem_cons_self
  · intro item hitem
    rw [← @mem_sortOn _ _ _ key, hrest, List.mem_cons] at hitem
    rcases hitem with rfl | hitem
    · exact le_rfl
    · exact hsorted.1 item hitem

/-- The groups of items under one name; a group keeps the order of its items. -/
def groupOn (name : α → F) (items : List α) : List (F × List α) :=
  items.foldl (fun groups item ↦ insertWith (name item) [item] (· ++ [item]) groups) []

theorem groupOn_concat (name : α → F) (items : List α) (item : α) :
    groupOn name (items ++ [item]) =
      insertWith (name item) [item] (· ++ [item]) (groupOn name items) := by
  unfold groupOn
  rw [List.foldl_append, List.foldl_cons, List.foldl_nil]

theorem sortedKeys_groupOn (name : α → F) (items : List α) : SortedKeys (groupOn name items) := by
  induction items using List.reverseRecOn with
  | nil => exact List.Pairwise.nil
  | append_singleton items item ih =>
      rw [groupOn_concat]
      exact sortedKeys_insertWith ih _ _ _

/-- The group of a name holds the items with that name. -/
theorem lookup_groupOn (name : α → F) (items : List α) (label : F) :
    (groupOn name items).lookup label =
      if items.filter (fun item ↦ name item = label) = [] then none
      else some (items.filter fun item ↦ name item = label) := by
  induction items using List.reverseRecOn with
  | nil => rfl
  | append_singleton items item ih =>
      rw [groupOn_concat, lookup_insertWith (sortedKeys_groupOn name items), List.filter_append]
      by_cases hlabel : label = name item
      · subst hlabel
        rw [if_pos rfl, ih]
        split_ifs <;> simp_all
      · have hne : name item ≠ label := Ne.symm hlabel
        rw [if_neg hlabel, ih]
        simp [hne]

/-- The least item of every group, in the order of the names. -/
def leastOfGroups (name : α → F) (key : α → K) (items : List α) : List α :=
  (groupOn name items).filterMap fun group ↦ (sortOn key group.2).head?

section

variable {name : α → F} {key : α → K} {items : List α}

theorem mem_leastOfGroups {least : α} (hleast : least ∈ leastOfGroups name key items) :
    least ∈ items ∧ ∀ item ∈ items, name item = name least → key least ≤ key item := by
  rcases List.mem_filterMap.mp hleast with ⟨⟨label, group⟩, hgroup, hhead⟩
  rw [(sortedKeys_groupOn name items).mem_iff, lookup_groupOn] at hgroup
  split_ifs at hgroup
  cases hgroup
  rcases head?_sortOn hhead with ⟨hmem, hle⟩
  simp only [List.mem_filter, decide_eq_true_eq] at hmem hle
  exact ⟨hmem.1, fun item hitem hname ↦ hle item ⟨hitem, hname.trans hmem.2⟩⟩

/-- Every name of an item is the name of a least item. -/
theorem exists_leastOfGroups {item : α} (hitem : item ∈ items) :
    ∃ least ∈ leastOfGroups name key items, name least = name item := by
  have hmem : item ∈ items.filter fun other ↦ name other = name item := by simp [hitem]
  have hgroup := lookup_groupOn name items (name item)
  rw [if_neg (List.ne_nil_of_mem hmem)] at hgroup
  cases hhead : (sortOn key (items.filter fun other ↦ name other = name item)).head? with
  | none =>
      rw [← @mem_sortOn _ _ _ key, List.head?_eq_none_iff.mp hhead] at hmem
      cases hmem
  | some least =>
      have hleast := (head?_sortOn hhead).1
      rw [List.mem_filter, decide_eq_true_eq] at hleast
      exact ⟨least, List.mem_filterMap.mpr
        ⟨(name item, _), (sortedKeys_groupOn name items).mem_iff.mpr hgroup, hhead⟩, hleast.2⟩

/-- There is one least item for a name, and they are in the order of the names. -/
theorem pairwise_leastOfGroups :
    (leastOfGroups name key items).Pairwise fun left right ↦ name left < name right := by
  have hname {label : F} {group : List α} {least : α} (hgroup : (label, group) ∈ groupOn name items)
      (hhead : (sortOn key group).head? = some least) : name least = label := by
    rw [(sortedKeys_groupOn name items).mem_iff, lookup_groupOn] at hgroup
    split_ifs at hgroup
    cases hgroup
    exact of_decide_eq_true (List.mem_filter.mp (head?_sortOn hhead).1).2
  rw [leastOfGroups, List.pairwise_filterMap]
  apply (sortedKeys_groupOn name items).imp_of_mem
  rintro ⟨left, leftGroup⟩ ⟨right, rightGroup⟩ hleft hright hlt least hleast other hother
  rwa [hname hleft hleast, hname hright hother]

/-- Where the key tells the items of a name apart, its least item is the one below all others. -/
theorem mem_leastOfGroups_iff (hkey : ∀ left ∈ items, ∀ right ∈ items, name left = name right →
    key left = key right → left = right) {least : α} :
    least ∈ leastOfGroups name key items ↔
      least ∈ items ∧ ∀ item ∈ items, name item = name least → key least ≤ key item := by
  constructor
  · exact mem_leastOfGroups
  · rintro ⟨hmem, hle⟩
    rcases @exists_leastOfGroups _ _ _ _ _ name key _ _ hmem with ⟨other, hother, hname⟩
    rcases mem_leastOfGroups hother with ⟨hotherMem, hotherLe⟩
    have heq : other = least := hkey other hotherMem least hmem hname
      ((hotherLe least hmem hname.symm).antisymm (hle other hotherMem hname))
    rwa [← heq]

end

end Deblob.Lib
