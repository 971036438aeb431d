import Mathlib.Data.List.Induction
import Mathlib.Data.List.Sort

/-!
# Sorted sets and maps as lists

A set is a list in increasing order of a comparison, a map is a list of entries in increasing order
of their keys. Both are built by insertion, so that equal sets and equal maps are equal lists and a
traversal meets the elements in order.
-/

namespace Deblob.Lib

section Set

variable {α : Type*} (cmp : α → α → Ordering)

/-- Insert a value unless an equal one is there. -/
def insertSet (value : α) : List α → List α
  | [] => [value]
  | other :: values =>
    match cmp value other with
    | .lt => value :: other :: values
    | .eq => other :: values
    | .gt => other :: insertSet value values

def collectSet (values : List α) : List α :=
  values.foldl (fun set value ↦ insertSet cmp value set) []

variable {cmp}

theorem mem_insertSet (hcmp : ∀ left right, cmp left right = .eq → left = right) {value other : α}
    {set : List α} : other ∈ insertSet cmp value set ↔ other = value ∨ other ∈ set := by
  induction set with
  | nil => simp [insertSet]
  | cons head set ih =>
      unfold insertSet
      split
      · simp
      · next heq =>
          obtain rfl := hcmp _ _ heq
          simp
      · simp only [List.mem_cons, ih]
        tauto

theorem mem_collectSet (hcmp : ∀ left right, cmp left right = .eq → left = right) {other : α}
    {values : List α} : other ∈ collectSet cmp values ↔ other ∈ values := by
  induction values using List.reverseRecOn with
  | nil => simp [collectSet]
  | append_singleton values value ih =>
      unfold collectSet at ih ⊢
      rw [List.foldl_append, List.foldl_cons, List.foldl_nil, mem_insertSet hcmp, ih,
        List.mem_append, List.mem_singleton, or_comm]

section StrictOrder

variable [Std.TransCmp cmp] [Std.LawfulEqCmp cmp]

theorem pairwise_insertSet {set : List α}
    (hset : set.Pairwise fun left right ↦ cmp left right = .lt) (value : α) :
    (insertSet cmp value set).Pairwise fun left right ↦ cmp left right = .lt := by
  induction set with
  | nil => exact List.pairwise_singleton _ _
  | cons head set ih =>
      rcases List.pairwise_cons.mp hset with ⟨hhead, htail⟩
      unfold insertSet
      split
      · next hlt =>
          apply List.pairwise_cons.mpr
          refine ⟨fun other hother ↦ ?_, hset⟩
          rcases List.mem_cons.mp hother with rfl | hother
          · exact hlt
          · exact Std.TransCmp.lt_trans hlt (hhead other hother)
      · exact hset
      · next hgt =>
          apply List.pairwise_cons.mpr
          refine ⟨fun other hother ↦ ?_, ih htail⟩
          rcases (mem_insertSet fun _ _ ↦ Std.LawfulEqCmp.eq_of_compare).mp hother with rfl | hother
          · exact Std.OrientedCmp.gt_iff_lt.mp hgt
          · exact hhead other hother

theorem pairwise_collectSet (values : List α) :
    (collectSet cmp values).Pairwise fun left right ↦ cmp left right = .lt := by
  induction values using List.reverseRecOn with
  | nil => exact List.Pairwise.nil
  | append_singleton values value ih =>
      unfold collectSet at ih ⊢
      rw [List.foldl_append]
      exact pairwise_insertSet ih value

/-- A set depends neither on the order nor on the repetitions of its values. -/
theorem collectSet_congr {left right : List α} (hmem : ∀ value, value ∈ left ↔ value ∈ right) :
    collectSet cmp left = collectSet cmp right := by
  have hirrefl (value : α) : cmp value value ≠ .lt := by
    have hself : cmp value value = .eq := Std.ReflCmp.compare_self
    rw [hself]
    exact nofun
  have hnodup (values : List α) : (collectSet cmp values).Nodup := by
    apply (pairwise_collectSet values).imp
    rintro value _ hlt rfl
    exact hirrefl value hlt
  have hmemSet (values : List α) (value : α) : value ∈ collectSet cmp values ↔ value ∈ values :=
    mem_collectSet fun _ _ ↦ Std.LawfulEqCmp.eq_of_compare
  have hperm : (collectSet cmp left).Perm (collectSet cmp right) := by
    apply (List.perm_ext_iff_of_nodup (hnodup left) (hnodup right)).mpr
    intro value
    rw [hmemSet, hmemSet, hmem]
  apply hperm.eq_of_pairwise _ (pairwise_collectSet left) (pairwise_collectSet right)
  exact fun _ _ _ _ hlt hgt ↦ absurd (Std.TransCmp.lt_trans hlt hgt) (hirrefl _)

end StrictOrder

end Set

section Map

variable {K V W : Type*} [LinearOrder K]

/-- Insert an entry, or combine the value that is there. -/
def insertWith (key : K) (value : V) (combine : V → V) : List (K × V) → List (K × V)
  | [] => [(key, value)]
  | (other, present) :: entries =>
    if key < other then (key, value) :: (other, present) :: entries
    else if key = other then (other, combine present) :: entries
    else (other, present) :: insertWith key value combine entries

/-- The map of a list of entries; a later entry replaces an earlier one. -/
def collectMap (entries : List (K × V)) : List (K × V) :=
  entries.foldl (fun map entry ↦ insertWith entry.1 entry.2 (fun _ ↦ entry.2) map) []

/-- The value of a key, which is compared by the order. -/
def getEntry (map : List (K × V)) (key : K) : Option V := map.lookup key

theorem mem_of_getEntry {map : List (K × V)} {key : K} {value : V}
    (hentry : getEntry map key = some value) : (key, value) ∈ map := by
  rcases List.lookup_eq_some_iff.mp hentry with ⟨before, after, rfl, -⟩
  simp

def SortedKeys (map : List (K × V)) : Prop := map.Pairwise fun left right ↦ left.1 < right.1

instance (map : List (K × V)) : Decidable (SortedKeys map) :=
  inferInstanceAs (Decidable (map.Pairwise fun left right ↦ left.1 < right.1))

theorem mem_keys_insertWith {key other : K} {value : V} {combine : V → V} {map : List (K × V)} :
    other ∈ (insertWith key value combine map).map Prod.fst ↔
      other = key ∨ other ∈ map.map Prod.fst := by
  induction map with
  | nil => simp [insertWith]
  | cons entry map ih =>
      unfold insertWith
      split_ifs with hlt heq
      · simp
      · subst heq
        simp
      · rw [List.map_cons, List.mem_cons, ih, List.map_cons, List.mem_cons]
        tauto

/-- With values that are kept as they are, every entry is an old one or the new one. -/
theorem mem_insertWith_id {key : K} {value : V} {entry : K × V} {map : List (K × V)}
    (hentry : entry ∈ insertWith key value id map) : entry = (key, value) ∨ entry ∈ map := by
  induction map with
  | nil => simpa [insertWith] using hentry
  | cons head map ih =>
      unfold insertWith at hentry
      split_ifs at hentry with hlt heq
      · simpa using hentry
      · exact .inr hentry
      · rw [List.mem_cons] at hentry ⊢
        rcases hentry with hhead | htail
        · exact .inr (.inl hhead)
        · exact (ih htail).imp_right .inr

theorem sortedKeys_insertWith {map : List (K × V)} (hmap : SortedKeys map) (key : K) (value : V)
    (combine : V → V) : SortedKeys (insertWith key value combine map) := by
  induction map with
  | nil => exact List.pairwise_singleton _ _
  | cons entry map ih =>
      obtain ⟨hhead, htail⟩ := List.pairwise_cons.mp hmap
      unfold insertWith
      split_ifs with hlt heq
      · refine List.pairwise_cons.mpr ⟨fun other hother ↦ ?_, hmap⟩
        obtain rfl | hother := List.mem_cons.mp hother
        · exact hlt
        · exact hlt.trans (hhead other hother)
      · exact List.pairwise_cons.mpr ⟨hhead, htail⟩
      · refine List.pairwise_cons.mpr ⟨fun other hother ↦ ?_, ih htail⟩
        obtain hkey | hother := mem_keys_insertWith.mp (List.mem_map_of_mem hother)
        · rw [hkey]
          exact lt_of_le_of_ne (not_lt.mp hlt) (Ne.symm heq)
        · obtain ⟨inner, hinner, hkey⟩ := List.mem_map.mp hother
          exact hkey ▸ hhead inner hinner

theorem sortedKeys_collectMap (entries : List (K × V)) : SortedKeys (collectMap entries) := by
  induction entries using List.reverseRecOn with
  | nil => exact List.Pairwise.nil
  | append_singleton entries entry ih =>
      unfold collectMap at ih ⊢
      rw [List.foldl_append]
      exact sortedKeys_insertWith ih _ _ _

@[simp]
theorem lookup_cons_eq (entry : K × V) (map : List (K × V)) (key : K) :
    (entry :: map).lookup key = if key = entry.1 then some entry.2 else map.lookup key := by
  rw [List.lookup_cons]
  split_ifs with heq
  · rw [beq_iff_eq.mpr heq]
  · rw [beq_eq_false_iff_ne.mpr heq]

theorem lookup_eq_none_of_lt {map : List (K × V)} {key : K} (hlt : ∀ entry ∈ map, key < entry.1) :
    map.lookup key = none := by
  induction map with
  | nil => rfl
  | cons entry map ih =>
      obtain ⟨hhead, htail⟩ := List.forall_mem_cons.mp hlt
      rw [lookup_cons_eq, if_neg hhead.ne, ih htail]

theorem lookup_insertWith {map : List (K × V)} (hmap : SortedKeys map) (key other : K) (value : V)
    (combine : V → V) :
    (insertWith key value combine map).lookup other =
      if other = key then some ((map.lookup key).elim value combine) else map.lookup other := by
  induction map with
  | nil => simp [insertWith]
  | cons entry map ih =>
      obtain ⟨hhead, htail⟩ := List.pairwise_cons.mp hmap
      unfold insertWith
      obtain hlt | rfl | hgt := lt_trichotomy key entry.1
      · have hnone : (entry :: map).lookup key = none :=
          lookup_eq_none_of_lt (List.forall_mem_cons.mpr ⟨hlt, fun e he ↦ hlt.trans (hhead e he)⟩)
        rw [if_pos hlt, lookup_cons_eq, hnone, Option.elim_none]
      · rw [if_neg (lt_irrefl _), if_pos rfl]
        simp only [lookup_cons_eq, if_true, Option.elim_some]
        split_ifs <;> rfl
      · rw [if_neg hgt.not_gt, if_neg hgt.ne', lookup_cons_eq, lookup_cons_eq, lookup_cons_eq,
          if_neg hgt.ne', ih htail]
        by_cases hother : other = entry.1
        · rw [if_pos hother, if_pos hother, if_neg (hother ▸ hgt.ne)]
        · rw [if_neg hother, if_neg hother]

/-- An entry put in is found, and the others are as before; the map need not be sorted. -/
theorem lookup_insert (map : List (K × V)) (key other : K) (value : V) :
    (insertWith key value (fun _ ↦ value) map).lookup other =
      if other = key then some value else map.lookup other := by
  induction map with
  | nil => simp [insertWith]
  | cons entry map ih =>
      unfold insertWith
      obtain hlt | rfl | hgt := lt_trichotomy key entry.1
      · rw [if_pos hlt, lookup_cons_eq]
      · rw [if_neg (lt_irrefl _), if_pos rfl, lookup_cons_eq, lookup_cons_eq]
        split_ifs <;> rfl
      · rw [if_neg hgt.not_gt, if_neg hgt.ne', lookup_cons_eq, lookup_cons_eq, ih]
        by_cases hother : other = entry.1
        · rw [if_pos hother, if_pos hother, if_neg (hother ▸ hgt.ne)]
        · rw [if_neg hother, if_neg hother]

theorem SortedKeys.mem_iff {map : List (K × V)} (hmap : SortedKeys map) {key : K} {value : V} :
    (key, value) ∈ map ↔ map.lookup key = some value := by
  induction map with
  | nil => simp
  | cons entry map ih =>
      obtain ⟨hhead, htail⟩ := List.pairwise_cons.mp hmap
      rw [List.mem_cons, ih htail, lookup_cons_eq]
      split_ifs with heq
      · rw [heq, lookup_eq_none_of_lt hhead, Prod.ext_iff]
        simp [eq_comm]
      · simp [Prod.ext_iff, heq]

theorem SortedKeys.ext {left right : List (K × V)} (hleft : SortedKeys left)
    (hright : SortedKeys right) (hlookup : ∀ key, left.lookup key = right.lookup key) :
    left = right := by
  have hnodup {map : List (K × V)} (hmap : SortedKeys map) : map.Nodup :=
    hmap.imp fun hlt heq ↦ hlt.ne (congrArg Prod.fst heq)
  have hperm : left.Perm right := by
    refine (List.perm_ext_iff_of_nodup (hnodup hleft) (hnodup hright)).mpr fun ⟨key, value⟩ ↦ ?_
    rw [hleft.mem_iff, hright.mem_iff, hlookup]
  exact hperm.eq_of_pairwise (fun _ _ _ _ hlt hgt ↦ absurd hlt hgt.not_gt) hleft hright

/-- The last entry of a key is the one that stays. -/
theorem lookup_collectMap (entries : List (K × V)) (key : K) :
    (collectMap entries).lookup key = entries.reverse.lookup key := by
  induction entries using List.reverseRecOn with
  | nil => rfl
  | append_singleton entries entry ih =>
      have hstep : collectMap (entries ++ [entry]) =
          insertWith entry.1 entry.2 (fun _ ↦ entry.2) (collectMap entries) := by
        unfold collectMap
        rw [List.foldl_append]
        rfl
      rw [hstep, lookup_insertWith (sortedKeys_collectMap entries), ih, List.reverse_append,
        List.reverse_singleton, List.singleton_append, lookup_cons_eq]
      cases (collectMap entries).lookup entry.1 <;> cases entries.reverse.lookup entry.1 <;> rfl

/-- A sorted list of entries is the map of its entries. -/
theorem SortedKeys.collectMap_eq {map : List (K × V)} (hmap : SortedKeys map) :
    collectMap map = map := by
  apply (sortedKeys_collectMap map).ext hmap
  intro key
  rw [lookup_collectMap]
  cases hlookup : map.reverse.lookup key with
  | some value =>
      have hmem : (key, value) ∈ map := List.mem_reverse.mp (mem_of_getEntry hlookup)
      exact (hmap.mem_iff.mp hmem).symm
  | none =>
      rw [List.lookup_eq_none_iff] at hlookup
      apply Eq.symm
      rw [List.lookup_eq_none_iff]
      exact fun entry hentry ↦ hlookup entry (List.mem_reverse.mpr hentry)

/-- Every entry of a map of entries is one of them. -/
theorem mem_of_mem_collectMap {entries : List (K × V)} {entry : K × V}
    (hentry : entry ∈ collectMap entries) : entry ∈ entries := by
  have hlookup := (sortedKeys_collectMap entries).mem_iff.mp hentry
  rw [lookup_collectMap] at hlookup
  exact List.mem_reverse.mp (mem_of_getEntry hlookup)

/-- The entries are those of their map and the ones that were replaced. -/
theorem exists_perm_collectMap (entries : List (K × V)) :
    ∃ lost, entries.Perm (collectMap entries ++ lost) := by
  have hnodup : (collectMap entries).Nodup :=
    (sortedKeys_collectMap entries).imp fun hlt heq ↦ hlt.ne (congrArg Prod.fst heq)
  rcases List.subperm_of_subset hnodup fun _ hentry ↦ mem_of_mem_collectMap hentry with
    ⟨kept, hperm, hsublist⟩
  rcases hsublist.exists_perm_append with ⟨lost, hlost⟩
  exact ⟨lost, hlost.trans (hperm.append_right lost)⟩

/-- Nothing is replaced when the keys are distinct. -/
theorem collectMap_perm {entries : List (K × V)} (hkeys : (entries.map Prod.fst).Nodup) :
    (collectMap entries).Perm entries := by
  apply (List.perm_ext_iff_of_nodup _ (List.Nodup.of_map _ hkeys)).mpr
  · intro entry
    constructor
    · exact mem_of_mem_collectMap
    · intro hentry
      rw [(sortedKeys_collectMap entries).mem_iff, lookup_collectMap]
      cases hlookup : entries.reverse.lookup entry.1 with
      | none =>
          have habsent := List.lookup_eq_none_iff.mp hlookup entry (List.mem_reverse.mpr hentry)
          simp at habsent
      | some value =>
          have hfound : (entry.1, value) ∈ entries :=
            List.mem_reverse.mp (mem_of_getEntry hlookup)
          rw [List.inj_on_of_nodup_map hkeys hentry hfound rfl]
  · exact (sortedKeys_collectMap entries).imp fun hlt heq ↦ hlt.ne (congrArg Prod.fst heq)

theorem lookup_mapValues (view : V → W) (map : List (K × V)) (key : K) :
    (map.map fun entry ↦ (entry.1, view entry.2)).lookup key = (map.lookup key).map view := by
  induction map with
  | nil => rfl
  | cons entry map ih =>
      rw [List.map_cons, lookup_cons_eq, lookup_cons_eq, ih]
      split_ifs <;> rfl

/-- Values listed beside their keys are found by their keys. -/
theorem lookup_zip_map (keys : List K) (value : K → V) (key : K) :
    (keys.zip (keys.map value)).lookup key = if key ∈ keys then some (value key) else none := by
  induction keys with
  | nil => rfl
  | cons first keys ih =>
      rw [List.map_cons, List.zip_cons_cons, lookup_cons_eq, ih]
      by_cases hfirst : key = first
      · simp [hfirst]
      · simp [hfirst]

theorem SortedKeys.mapValues {map : List (K × V)} (hmap : SortedKeys map) (view : V → W) :
    SortedKeys (map.map fun entry ↦ (entry.1, view entry.2)) :=
  List.pairwise_map.mpr hmap

theorem SortedKeys.nodup_keys {map : List (K × V)} (hmap : SortedKeys map) :
    (map.map Prod.fst).Nodup :=
  List.pairwise_map.mpr (hmap.imp fun hlt ↦ hlt.ne)

/-- Look up the keys of some entries: the values are those of the entries. -/
theorem SortedKeys.filterMap_lookup {map : List (K × V)} (hmap : SortedKeys map)
    {entries : List (K × V)} (hentries : entries ⊆ map) :
    (entries.map Prod.fst).filterMap (fun key ↦ map.lookup key) = entries.map Prod.snd := by
  induction entries with
  | nil => rfl
  | cons entry entries ih =>
      have hlookup : map.lookup entry.1 = some entry.2 :=
        hmap.mem_iff.mp (hentries List.mem_cons_self)
      rw [List.map_cons, @List.filterMap_cons_some _ _ (fun key ↦ map.lookup key) _ _ _ hlookup,
        List.map_cons, ih fun other hother ↦ hentries (List.mem_cons_of_mem _ hother)]

/-- The values of the entries that meet a predicate, looked up by names of their keys. -/
theorem SortedKeys.values_perm {ι : Type*} {map : List (K × V)} (hmap : SortedKeys map)
    {keep : K × V → Bool} {key : ι → K} (hkey : Function.Injective key) {names : List ι}
    (hnames : names.Nodup)
    (hmem : ∀ other, (∃ name ∈ names, key name = other) ↔
      ∃ value, (other, value) ∈ map ∧ keep (other, value)) :
    ((map.filter keep).map Prod.snd).Perm (names.filterMap fun name ↦ map.lookup (key name)) := by
  have hperm : ((map.filter keep).map Prod.fst).Perm (names.map key) := by
    apply (List.perm_ext_iff_of_nodup _ _).mpr
    · intro other
      rw [List.mem_map (f := key), hmem]
      simp
    · exact hmap.nodup_keys.sublist (List.filter_sublist.map _)
    · exact hnames.map hkey
  rw [← hmap.filterMap_lookup List.filter_sublist.subset]
  exact (hperm.filterMap _).trans (by rw [List.filterMap_map]; rfl)

end Map

end Deblob.Lib
