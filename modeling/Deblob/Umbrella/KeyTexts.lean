import Deblob.Lib.Segments
import Deblob.Umbrella.Alignment
import Deblob.Umbrella.ValueLeaves

/-!
# Texts of keys

The keys of a leaf are joined with dots to one text, by one walk for the path of its child field and
by another one for its value evidence, which loses empty keys at the front. The path is split at the
dots again, which gives the keys back if none of them has a dot.
-/

namespace Deblob.Umbrella

open Core Lib

def joinKeys (keys : List String) : String := ".".intercalate keys

def splitKeys (text : String) : List String := (text.toList.splitOn '.').map String.ofList

/-- The text under which the value evidence of a leaf is filed. -/
def walkText (keys : List String) : String := keys.foldl childPath ""

def IsPlain (keys : List String) : Prop := ∀ key ∈ keys, key ≠ "" ∧ '.' ∉ key.toList

theorem joinKeys_splitKeys (text : String) : joinKeys (splitKeys text) = text := by
  have hlists : (splitKeys text).map String.toList = text.toList.splitOn '.' := by
    rw [splitKeys, List.map_map]
    exact (List.map_congr_left fun chars _ ↦ String.toList_ofList).trans (List.map_id _)
  apply String.toList_inj.mp
  rw [joinKeys, String.toList_intercalate, hlists]
  exact List.intercalate_splitOn '.'

theorem splitKeys_joinKeys {keys : List String} (hkeys : keys ≠ [])
    (hdots : ∀ key ∈ keys, '.' ∉ key.toList) : splitKeys (joinKeys keys) = keys := by
  have hjoin : (joinKeys keys).toList = ['.'].intercalate (keys.map String.toList) :=
    String.toList_intercalate
  rw [splitKeys, hjoin, List.splitOn_intercalate '.' (by simpa using hdots) (by simpa using hkeys),
    List.map_map]
  exact (List.map_congr_left fun key _ ↦ String.ofList_toList).trans (List.map_id _)

theorem dot_notMem_splitKeys {text key : String} (hkey : key ∈ splitKeys text) :
    '.' ∉ key.toList := by
  rcases List.mem_map.mp hkey with ⟨segment, hsegment, rfl⟩
  rw [String.toList_ofList]
  exact sep_notMem_of_mem_splitOn hsegment

/-- A joined text names a path exactly if no segment of a key is empty. -/
theorem isPathKey_joinKeys_iff {keys : List String} (hkeys : keys ≠ []) :
    IsPathKey (joinKeys keys) ↔ ∀ key ∈ keys, [] ∉ key.toList.splitOn '.' := by
  have hsplit : (joinKeys keys).toList.splitOn '.' =
      keys.flatMap fun key ↦ key.toList.splitOn '.' := by
    rw [joinKeys, String.toList_intercalate]
    exact (splitOn_intercalate_eq_flatMap (by simpa using hkeys)).trans
      (List.flatMap_map _ _ _)
  have hempty : [] ∉ (joinKeys keys).toList.splitOn '.' → joinKeys keys ≠ "" := by
    intro hsegments heq
    rw [heq] at hsegments
    exact hsegments (List.mem_singleton_self _)
  rw [IsPathKey, and_iff_right_of_imp hempty, hsplit]
  simp

theorem ne_empty_of_isPathKey {keys : List String} (hpath : IsPathKey (joinKeys keys)) :
    ∀ key ∈ keys, key ≠ "" := by
  intro key hkey heq
  have hsegments := (isPathKey_joinKeys_iff (List.ne_nil_of_mem hkey)).mp hpath key hkey
  rw [heq] at hsegments
  exact hsegments (List.mem_singleton_self _)

theorem ne_nil_of_isPathKey {keys : List String} (hpath : IsPathKey (joinKeys keys)) :
    keys ≠ [] := by
  intro hnil
  rw [hnil] at hpath
  exact hpath.1 rfl

theorem isPathKey_of_isPlain {keys : List String} (hkeys : keys ≠ []) (hplain : IsPlain keys) :
    IsPathKey (joinKeys keys) := by
  rw [isPathKey_joinKeys_iff hkeys]
  intro key hkey
  rcases hplain key hkey with ⟨hempty, hdot⟩
  rw [List.splitOn_eq_singleton hdot, List.mem_singleton]
  exact fun heq ↦ hempty (String.toList_inj.mp heq.symm)

theorem foldl_dots {keys : List String} (hkeys : keys ≠ []) (text : String) :
    keys.foldl (fun text key ↦ text ++ "." ++ key) text = text ++ "." ++ joinKeys keys := by
  induction keys generalizing text with
  | nil => exact absurd rfl hkeys
  | cons key keys ih =>
      rw [List.foldl_cons]
      cases keys with
      | nil => rw [List.foldl_nil, joinKeys, String.intercalate_singleton]
      | cons next keys =>
          rw [ih (List.cons_ne_nil _ _), joinKeys, joinKeys, String.intercalate_cons_cons]
          simp only [String.append_assoc]

theorem foldl_childPath {path : String} (hpath : path ≠ "") (keys : List String) :
    keys.foldl childPath path = keys.foldl (fun text key ↦ text ++ "." ++ key) path := by
  induction keys generalizing path with
  | nil => rfl
  | cons key keys ih =>
      rw [List.foldl_cons, List.foldl_cons, childPath, if_neg hpath]
      exact ih (by simp)

/-- The text of a path without the root, to which value evidence is joined. -/
def leafPathOf (jsonPath : String) : String := (stripPrefix "$." jsonPath).getD jsonPath

theorem leafPathOf_toString (path : JsonPath) :
    leafPathOf path.toString = joinKeys path.segments := by
  have htext : path.toString = "$." ++ joinKeys path.segments := foldl_dots path.nonempty "$"
  rw [leafPathOf, htext, stripPrefix_append, Option.getD_some]

/-- Behind a first key that is not empty both texts are the same. -/
theorem walkText_cons {key : String} (hkey : key ≠ "") (keys : List String) :
    walkText (key :: keys) = joinKeys (key :: keys) := by
  rw [walkText, List.foldl_cons, childPath, if_pos rfl]
  cases keys with
  | nil => rw [List.foldl_nil, joinKeys, String.intercalate_singleton]
  | cons next keys =>
      rw [foldl_childPath hkey, foldl_dots (List.cons_ne_nil _ _), joinKeys, joinKeys,
        String.intercalate_cons_cons]

theorem walkText_eq_joinKeys {keys : List String} (hkeys : keys ≠ [])
    (hempty : ∀ key ∈ keys, key ≠ "") : walkText keys = joinKeys keys := by
  cases keys with
  | nil => exact absurd rfl hkeys
  | cons key keys => exact walkText_cons (hempty key List.mem_cons_self) keys

theorem walkText_of_isPathKey {keys : List String} (hpath : IsPathKey (joinKeys keys)) :
    walkText keys = joinKeys keys :=
  walkText_eq_joinKeys (ne_nil_of_isPathKey hpath) (ne_empty_of_isPathKey hpath)

theorem walkText_eq_empty_iff {keys : List String} :
    walkText keys = "" ↔ ∀ key ∈ keys, key = "" := by
  have hfold (path : String) :
      keys.foldl childPath path = "" ↔ path = "" ∧ ∀ key ∈ keys, key = "" := by
    induction keys generalizing path with
    | nil => simp
    | cons key keys ih =>
        rw [List.foldl_cons, ih, List.forall_mem_cons]
        unfold childPath
        split_ifs with hpath
        · simp [hpath]
        · simp [hpath]
  rw [walkText, hfold, and_iff_right rfl]

theorem walkText_ne_empty_iff {keys : List String} :
    walkText keys ≠ "" ↔ ∃ key ∈ keys, key ≠ "" := by
  rw [Ne, walkText_eq_empty_iff]
  push Not
  rfl

end Deblob.Umbrella
