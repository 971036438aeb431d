import Mathlib.Data.List.Basic

/-!
# Multimaps

Every key has a list of values, in the order in which they were added. Nothing is promised about the
order of different keys, so two multimaps are compared by the values of each key.
-/

namespace Deblob.Lib

structure Multimap (K V : Type*) where
  fields : List (K × V)
deriving DecidableEq

namespace Multimap

variable {K V : Type*} [DecidableEq K]

def empty : Multimap K V := ⟨[]⟩

/-- The values of a key. -/
def getAll (map : Multimap K V) (key : K) : List V :=
  (map.fields.filter fun field ↦ field.1 = key).map Prod.snd

/-- The first value of a key. -/
def get (map : Multimap K V) (key : K) : Option V := (map.getAll key).head?

def containsKey (map : Multimap K V) (key : K) : Bool := map.fields.any fun field ↦ field.1 = key

/-- Add a value behind those the key has. -/
def append (map : Multimap K V) (key : K) (value : V) : Multimap K V :=
  ⟨map.fields ++ [(key, value)]⟩

def remove (map : Multimap K V) (key : K) : Multimap K V :=
  ⟨map.fields.filter fun field ↦ field.1 ≠ key⟩

/-- Replace the values of a key by one value. -/
def insert (map : Multimap K V) (key : K) (value : V) : Multimap K V :=
  (map.remove key).append key value

@[simp]
theorem getAll_empty (key : K) : (empty : Multimap K V).getAll key = [] := rfl

theorem containsKey_eq_true_iff {map : Multimap K V} {key : K} :
    map.containsKey key = true ↔ map.getAll key ≠ [] := by
  simp [containsKey, getAll]

@[simp]
theorem getAll_append (map : Multimap K V) (key other : K) (value : V) :
    (map.append key value).getAll other =
      map.getAll other ++ (if key = other then [value] else []) := by
  by_cases hkey : key = other <;> simp [getAll, append, hkey]

@[simp]
theorem getAll_remove (map : Multimap K V) (key other : K) :
    (map.remove key).getAll other = if key = other then [] else map.getAll other := by
  unfold getAll remove
  rw [List.filter_filter]
  split_ifs with hkey
  · simp [hkey]
  · congr 1
    apply List.filter_congr
    intro field _
    grind

@[simp]
theorem getAll_insert (map : Multimap K V) (key other : K) (value : V) :
    (map.insert key value).getAll other = if key = other then [value] else map.getAll other := by
  unfold insert
  rw [getAll_append, getAll_remove]
  split_ifs <;> simp

/-- Appending every field whose key is not skipped keeps the values of the other keys. -/
theorem getAll_foldl_append (skip : K → Bool) (fields : List (K × V)) (map : Multimap K V)
    (key : K) :
    (fields.foldl (fun out field ↦ if skip field.1 then out else out.append field.1 field.2)
      map).getAll key =
      map.getAll key ++ if skip key then [] else (⟨fields⟩ : Multimap K V).getAll key := by
  induction fields generalizing map with
  | nil => simp [getAll]
  | cons field fields ih =>
      have hcons : (⟨field :: fields⟩ : Multimap K V).getAll key =
          (if field.1 = key then [field.2] else []) ++ (⟨fields⟩ : Multimap K V).getAll key := by
        by_cases hkey : field.1 = key <;> simp [getAll, hkey]
      rw [List.foldl_cons, ih, hcons]
      by_cases hkey : field.1 = key
      · subst hkey
        by_cases hskip : skip field.1 = true <;> simp [hskip]
      · split_ifs <;> simp [hkey]

end Multimap

/-- How a filter turns the values of each key into new ones: owned keys hold what it writes, dropped
keys hold nothing, and the others are kept; of the keys in `free` nothing is said. -/
structure Rewrites {K V : Type*} (owned dropped free : K → Prop)
    (written inbound outbound : K → List V) : Prop where
  owned_eq : ∀ key, owned key → outbound key = written key
  dropped_eq : ∀ key, ¬ owned key → dropped key → outbound key = []
  kept_eq : ∀ key, ¬ owned key → ¬ dropped key → ¬ free key → outbound key = inbound key

end Deblob.Lib
