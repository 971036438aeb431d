import Mathlib.Data.Finset.Insert
import Mathlib.Data.Finset.SDiff
import Mathlib.Data.Finset.Erase
import Mathlib.Logic.Function.Basic

/-!
# Families of finite sets under one-member updates

A key-value store that keeps sets under its keys is a function from keys to finite sets; a missing
key holds the empty set. `sadd` and `srem` change one set by one member, `saddEach` and `sremEach`
fold them over a list. Everything about them is said by who is a member of which set afterwards.
-/

namespace Deblob.Lib

/-- One finite set for each key. -/
abbrev KeyedSets (Key Member : Type*) := Key → Finset Member

namespace KeyedSets

variable {Key Member : Type*} [DecidableEq Key] [DecidableEq Member] (sets : KeyedSets Key Member)

def sadd (key : Key) (member : Member) : KeyedSets Key Member :=
  Function.update sets key (insert member (sets key))

def srem (key : Key) (member : Member) : KeyedSets Key Member :=
  Function.update sets key ((sets key).erase member)

def saddEach (pairs : List (Key × Member)) : KeyedSets Key Member :=
  pairs.foldl (fun sets pair ↦ sadd sets pair.1 pair.2) sets

def sremEach (pairs : List (Key × Member)) : KeyedSets Key Member :=
  pairs.foldl (fun sets pair ↦ srem sets pair.1 pair.2) sets

variable {sets} {key other : Key} {member found : Member} {pairs : List (Key × Member)}

@[simp]
theorem mem_sadd :
    found ∈ sadd sets key member other ↔ (other = key ∧ found = member) ∨ found ∈ sets other := by
  by_cases hother : other = key
  · subst hother
    simp [sadd]
  · simp [sadd, hother]

@[simp]
theorem mem_srem :
    found ∈ srem sets key member other ↔ ¬ (other = key ∧ found = member) ∧ found ∈ sets other := by
  by_cases hother : other = key
  · subst hother
    simp [srem]
  · simp [srem, hother]

@[simp]
theorem mem_saddEach : found ∈ saddEach sets pairs other ↔
    (other, found) ∈ pairs ∨ found ∈ sets other := by
  induction pairs generalizing sets with
  | nil => simp [saddEach]
  | cons pair pairs ih =>
      have hcons : saddEach sets (pair :: pairs) = saddEach (sadd sets pair.1 pair.2) pairs := rfl
      rw [hcons, ih, mem_sadd, List.mem_cons, Prod.ext_iff]
      tauto

@[simp]
theorem mem_sremEach : found ∈ sremEach sets pairs other ↔
    (other, found) ∉ pairs ∧ found ∈ sets other := by
  induction pairs generalizing sets with
  | nil => simp [sremEach]
  | cons pair pairs ih =>
      have hcons : sremEach sets (pair :: pairs) = sremEach (srem sets pair.1 pair.2) pairs := rfl
      rw [hcons, ih, mem_srem, List.mem_cons, Prod.ext_iff]
      tauto

end KeyedSets

end Deblob.Lib
