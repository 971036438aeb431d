import Mathlib.Data.List.Sort
import Mathlib.Data.Prod.Lex

/-!
# Sets with scores

A set whose members have scores is kept in the order of its ranks: by score, and by member among
equal scores. The order and the distinctness of the members travel with the list of entries.
-/

namespace Deblob.Lib

section

variable {α : Type*} [LinearOrder α]

/-- Entries by score, then by member. -/
def rankLe (left right : α × ℕ) : Prop := toLex (left.2, left.1) ≤ toLex (right.2, right.1)

instance : DecidableRel (rankLe : α × ℕ → α × ℕ → Prop) :=
  fun left right ↦ inferInstanceAs (Decidable (toLex (left.2, left.1) ≤ toLex (right.2, right.1)))

instance : IsTrans (α × ℕ) rankLe := ⟨fun _ _ _ ↦ le_trans⟩

instance : Std.Total (rankLe : α × ℕ → α × ℕ → Prop) := ⟨fun _ _ ↦ le_total _ _⟩

theorem score_le_of_rankLe {left right : α × ℕ} (hle : rankLe left right) : left.2 ≤ right.2 :=
  Prod.Lex.monotone_fst_ofLex hle

end

structure ScoredSet (α : Type*) [LinearOrder α] where
  entries : List (α × ℕ)
  sorted : entries.Pairwise rankLe
  nodup : (entries.map Prod.fst).Nodup

namespace ScoredSet

variable {α : Type*} [LinearOrder α]

theorem ext {left right : ScoredSet α} (hentries : left.entries = right.entries) :
    left = right := by
  cases left
  cases right
  cases hentries
  rfl

def empty : ScoredSet α := ⟨[], List.Pairwise.nil, List.nodup_nil⟩

def members (set : ScoredSet α) : List α := set.entries.map Prod.fst

/-- Only a member that is not there is added; the one that is there keeps its score. -/
def addNew (set : ScoredSet α) (member : α) (score : ℕ) : ScoredSet α :=
  if hmember : member ∈ set.members then set
  else
    { entries := set.entries.orderedInsert rankLe (member, score)
      sorted := set.sorted.orderedInsert (member, score) set.entries
      nodup := by
        have hperm := (List.perm_orderedInsert rankLe (member, score) set.entries).map Prod.fst
        rw [hperm.nodup_iff, List.map_cons, List.nodup_cons]
        exact ⟨hmember, set.nodup⟩ }

/-- Some members are removed. -/
def without (set : ScoredSet α) (removed : List α) : ScoredSet α where
  entries := set.entries.filter fun entry ↦ entry.1 ∉ removed
  sorted := set.sorted.filter _
  nodup := set.nodup.sublist (List.filter_sublist.map _)

/-- The entries whose scores are below a bound. -/
def below (set : ScoredSet α) (bound : ℤ) : List (α × ℕ) :=
  set.entries.filter fun entry ↦ (entry.2 : ℤ) < bound

variable {set : ScoredSet α} {member : α} {score : ℕ} {removed : List α} {entry : α × ℕ}

theorem addNew_of_mem (hmember : member ∈ set.members) : set.addNew member score = set :=
  dif_pos hmember

theorem mem_addNew (hmember : member ∉ set.members) :
    entry ∈ (set.addNew member score).entries ↔ entry = (member, score) ∨ entry ∈ set.entries := by
  rw [addNew, dif_neg hmember]
  exact List.mem_orderedInsert rankLe

theorem addNew_lowest (hmember : member ∉ set.members)
    (hlowest : ∀ entry ∈ set.entries, rankLe (member, score) entry) :
    (set.addNew member score).entries = (member, score) :: set.entries := by
  rw [addNew, dif_neg hmember]
  show set.entries.orderedInsert rankLe (member, score) = _
  cases hentries : set.entries with
  | nil => rfl
  | cons entry entries =>
      refine List.orderedInsert_cons_of_le rankLe entries (hlowest entry ?_)
      rw [hentries]
      exact List.mem_cons_self

theorem mem_members : member ∈ set.members ↔ ∃ score, (member, score) ∈ set.entries := by
  simp [members]

theorem mem_members_addNew {other : α} :
    other ∈ (set.addNew member score).members ↔ other = member ∨ other ∈ set.members := by
  by_cases hmember : member ∈ set.members
  · rw [addNew_of_mem hmember]
    constructor
    · exact .inr
    · rintro (rfl | hother)
      · exact hmember
      · exact hother
  · simp only [mem_members, mem_addNew hmember, Prod.mk.injEq]
    constructor
    · rintro ⟨_, ⟨rfl, rfl⟩ | hentry⟩
      · exact .inl rfl
      · exact .inr ⟨_, hentry⟩
    · rintro (rfl | ⟨_, hentry⟩)
      · exact ⟨score, .inl ⟨rfl, rfl⟩⟩
      · exact ⟨_, .inr hentry⟩

@[simp]
theorem mem_without : entry ∈ (set.without removed).entries ↔
    entry ∈ set.entries ∧ entry.1 ∉ removed := by
  simp [without]

@[simp]
theorem mem_members_without {other : α} :
    other ∈ (set.without removed).members ↔ other ∈ set.members ∧ other ∉ removed := by
  simp only [mem_members, mem_without]
  exact exists_and_right

@[simp]
theorem without_nil : set.without [] = set := by
  apply ext
  simp [without]

theorem eq_of_mem {left right : α × ℕ} (hleft : left ∈ set.entries) (hright : right ∈ set.entries)
    (hmember : left.1 = right.1) : left = right :=
  List.inj_on_of_nodup_map set.nodup hleft hright hmember

theorem without_below (set : ScoredSet α) (bound : ℤ) :
    (set.without ((set.below bound).map Prod.fst)).entries =
      set.entries.filter fun entry ↦ bound ≤ (entry.2 : ℤ) := by
  refine List.filter_congr fun entry hentry ↦ decide_eq_decide.mpr ?_
  constructor
  · intro hnot
    by_contra hbelow
    apply hnot
    exact List.mem_map_of_mem (List.mem_filter.mpr ⟨hentry, by simpa using hbelow⟩)
  · intro habove hmem
    rcases List.mem_map.mp hmem with ⟨other, hother, hmember⟩
    rcases List.mem_filter.mp hother with ⟨hother, hbelow⟩
    rw [eq_of_mem hother hentry hmember] at hbelow
    exact absurd (of_decide_eq_true hbelow) (not_lt.mpr habove)

/-- Removing the first entries leaves the others. -/
theorem without_take (set : ScoredSet α) (count : ℕ) :
    (set.without ((set.entries.take count).map Prod.fst)).entries = set.entries.drop count := by
  have hnodup := set.nodup
  rw [← List.take_append_drop count set.entries, List.map_append,
    List.nodup_append] at hnodup
  have htake : (set.entries.take count).filter
      (fun entry ↦ entry.1 ∉ (set.entries.take count).map Prod.fst) = [] := by
    refine List.filter_eq_nil_iff.mpr fun entry hentry ↦ ?_
    rw [decide_not, Bool.not_eq_true', decide_eq_false_iff_not, not_not]
    exact List.mem_map_of_mem hentry
  have hdrop : (set.entries.drop count).filter
      (fun entry ↦ entry.1 ∉ (set.entries.take count).map Prod.fst) = set.entries.drop count := by
    refine List.filter_eq_self.mpr fun entry hentry ↦ decide_eq_true fun hmem ↦ ?_
    exact hnodup.2.2 entry.1 hmem entry.1 (List.mem_map_of_mem hentry) rfl
  calc (set.without ((set.entries.take count).map Prod.fst)).entries
      = (set.entries.take count ++ set.entries.drop count).filter
          (fun entry ↦ entry.1 ∉ (set.entries.take count).map Prod.fst) := by
        rw [List.take_append_drop]
        rfl
    _ = set.entries.drop count := by rw [List.filter_append, htake, hdrop, List.nil_append]

end ScoredSet

end Deblob.Lib
