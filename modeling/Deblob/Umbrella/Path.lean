import Deblob.Umbrella.Types
import Deblob.Lib.Except
import Deblob.Lib.SortedMap
import Mathlib.Data.String.Basic

/-!
# Reading and writing by path

`get` follows object keys, `set` creates the objects in between. A write is seen at its own path and
below, turns the paths above it into objects, and changes nothing at a path beside it.
-/

namespace Deblob.Umbrella

open Lib

/-- The segment at which something else than an object stands. -/
structure PathSetError where
  segment : String
deriving DecidableEq

def Value.getAt : Value → List String → Option Value
  | root, [] => some root
  | .object entries, segment :: path => (entries.lookup segment).bind fun child ↦ child.getAt path
  | _, _ :: _ => none

def Value.get (root : Value) (path : JsonPath) : Option Value := root.getAt path.segments

@[simp]
theorem Value.getAt_nil (root : Value) : root.getAt [] = some root := by
  cases root <;> rfl

/-- The object a write descends into, which may be a new one. -/
def Value.childAt (entries : List (String × Value)) (segment : String) : Value :=
  (entries.lookup segment).getD (.object [])

def Value.setAt : Value → List String → Value → Except PathSetError Value
  | root, [], _ => .ok root
  | .object entries, [segment], value =>
    .ok (.object (insertWith segment value (fun _ ↦ value) entries))
  | .object entries, segment :: path, value =>
    if (childAt entries segment).isObject then do
      let child ← (childAt entries segment).setAt path value
      .ok (.object (insertWith segment child (fun _ ↦ child) entries))
    else .error ⟨segment⟩
  | _, segment :: _, _ => .error ⟨segment⟩

/-- Set a value at a path; a null root counts as the empty object. -/
def Value.set (root : Value) (path : JsonPath) (value : Value) : Except PathSetError Value :=
  match root with
  | .null => (Value.object []).setAt path.segments value
  | root => root.setAt path.segments value

theorem Value.getAt_append (root : Value) (path rest : List String) :
    root.getAt (path ++ rest) = (root.getAt path).bind fun value ↦ value.getAt rest := by
  induction path generalizing root with
  | nil => simp
  | cons segment path ih => cases root <;> simp [Value.getAt, Option.bind_assoc, ih]

/-! ## What a write does -/

theorem Value.getAt_insert (entries : List (String × Value)) (key segment : String)
    (child : Value) (path : List String) :
    (Value.object (insertWith key child (fun _ ↦ child) entries)).getAt (segment :: path) =
      if segment = key then child.getAt path
      else (Value.object entries).getAt (segment :: path) := by
  rw [Value.getAt, lookup_insert]
  split_ifs
  · rfl
  · rw [Value.getAt]

theorem Value.getAt_childAt (entries : List (String × Value)) (segment : String)
    {path : List String} (hpath : path ≠ []) :
    (Value.childAt entries segment).getAt path =
      (Value.object entries).getAt (segment :: path) := by
  rw [Value.childAt, Value.getAt]
  cases entries.lookup segment with
  | some child => rfl
  | none =>
      obtain ⟨first, rest, rfl⟩ := List.exists_cons_of_ne_nil hpath
      rfl

theorem Value.setAt_object_cons (entries : List (String × Value)) (segment : String)
    {path : List String} (hpath : path ≠ []) (value : Value) :
    (Value.object entries).setAt (segment :: path) value =
      if (childAt entries segment).isObject then do
        let child ← (childAt entries segment).setAt path value
        .ok (.object (insertWith segment child (fun _ ↦ child) entries))
      else .error ⟨segment⟩ := by
  obtain ⟨next, rest, rfl⟩ := List.exists_cons_of_ne_nil hpath
  rw [Value.setAt]
  exact fun h ↦ absurd h hpath

/-- A write that succeeds replaces one entry of an object. -/
theorem Value.setAt_cons_eq_ok {root written value : Value} {segment : String}
    {path : List String} (hset : root.setAt (segment :: path) value = .ok written) :
    ∃ entries child, root = .object entries ∧
      written = .object (insertWith segment child (fun _ ↦ child) entries) ∧
      (path = [] ∧ child = value ∨
        path ≠ [] ∧ (Value.childAt entries segment).setAt path value = .ok child) := by
  cases root with
  | object entries =>
      cases path with
      | nil =>
          refine ⟨entries, value, rfl, ?_, .inl ⟨rfl, rfl⟩⟩
          exact (Except.ok.inj hset).symm
      | cons next path =>
          rw [Value.setAt_object_cons _ _ (List.cons_ne_nil _ _)] at hset
          split_ifs at hset
          obtain ⟨child, hchild, hwritten⟩ := Except.bind_eq_ok.mp hset
          exact ⟨entries, child, rfl, (Except.ok.inj hwritten).symm,
            .inr ⟨List.cons_ne_nil _ _, hchild⟩⟩
  | _ => simp [Value.setAt] at hset

/-- At the path and below it, the written value is read. -/
theorem Value.getAt_setAt_below {root written value : Value} {path : List String}
    (hpath : path ≠ []) (hset : root.setAt path value = .ok written) (rest : List String) :
    written.getAt (path ++ rest) = value.getAt rest := by
  induction path generalizing root written with
  | nil => contradiction
  | cons segment path ih =>
      obtain ⟨entries, child, rfl, rfl, hchild⟩ := Value.setAt_cons_eq_ok hset
      rw [List.cons_append, Value.getAt_insert, if_pos rfl]
      obtain ⟨rfl, rfl⟩ | ⟨hpath, hchild⟩ := hchild
      · rfl
      · exact ih hpath hchild

/-- Above the path there are objects. -/
theorem Value.getAt_setAt_above {root written value : Value} {path above : List String}
    (hset : root.setAt path value = .ok written) (habove : above <+: path) (hne : above ≠ path) :
    ∃ object, written.getAt above = some object ∧ object.isObject := by
  induction path generalizing root written above with
  | nil => exact absurd (List.prefix_nil.mp habove) hne
  | cons segment path ih =>
      obtain ⟨entries, child, rfl, rfl, hchild⟩ := Value.setAt_cons_eq_ok hset
      cases above with
      | nil => exact ⟨_, rfl, rfl⟩
      | cons first above =>
          obtain ⟨rfl, hrest⟩ := List.cons_prefix_cons.mp habove
          rw [Value.getAt_insert, if_pos rfl]
          have hrestNe : above ≠ path := fun heq ↦ hne (by rw [heq])
          obtain ⟨rfl, rfl⟩ | ⟨-, hchild⟩ := hchild
          · exact absurd (List.prefix_nil.mp hrest) hrestNe
          · exact ih hchild hrest hrestNe

/-- A path that is neither above nor below reads as before. -/
theorem Value.getAt_setAt_beside {root written value : Value} {path other : List String}
    (hset : root.setAt path value = .ok written) (hbelow : ¬ path <+: other)
    (habove : ¬ other <+: path) : written.getAt other = root.getAt other := by
  induction path generalizing root written other with
  | nil => exact absurd List.nil_prefix hbelow
  | cons segment path ih =>
      obtain ⟨entries, child, rfl, rfl, hchild⟩ := Value.setAt_cons_eq_ok hset
      cases other with
      | nil => exact absurd List.nil_prefix habove
      | cons first other =>
          rw [Value.getAt_insert]
          split_ifs with hfirst
          · subst hfirst
            rw [List.cons_prefix_cons, and_iff_right rfl] at hbelow habove
            obtain ⟨rfl, rfl⟩ | ⟨-, hchild⟩ := hchild
            · exact absurd List.nil_prefix hbelow
            · have hother : other ≠ [] := by
                rintro rfl
                exact habove List.nil_prefix
              rw [ih hchild hbelow habove, Value.getAt_childAt entries first hother]
          · rfl

/-- A write succeeds if there are only objects above its path. -/
theorem Value.setAt_ok {root : Value} {path : List String} (value : Value)
    (hroot : root.isObject)
    (hobjects : ∀ above object, above <+: path → above ≠ path → root.getAt above = some object →
      object.isObject) : ∃ written, root.setAt path value = .ok written := by
  induction path generalizing root with
  | nil => exact ⟨root, by cases root <;> rfl⟩
  | cons segment path ih =>
      obtain ⟨entries, rfl⟩ : ∃ entries, root = .object entries := by
        cases root with
        | object entries => exact ⟨entries, rfl⟩
        | _ => contradiction
      cases path with
      | nil => exact ⟨_, rfl⟩
      | cons next path =>
          have hchild : (Value.childAt entries segment).isObject := by
            cases hlookup : entries.lookup segment with
            | none => simp [Value.childAt, hlookup, Value.isObject]
            | some child =>
                rw [Value.childAt, hlookup]
                exact hobjects [segment] child (by simp) (by simp)
                  (by simp [Value.getAt, hlookup])
          obtain ⟨child, hset⟩ := ih hchild fun above object habove hne hget ↦ by
            cases above with
            | nil =>
                rw [Value.getAt_nil, Option.some.injEq] at hget
                exact hget ▸ hchild
            | cons first above =>
                rw [Value.getAt_childAt _ _ (List.cons_ne_nil _ _)] at hget
                exact hobjects (segment :: first :: above) object
                  (List.cons_prefix_cons.mpr ⟨rfl, habove⟩) (by simpa using hne) hget
          rw [Value.setAt_object_cons _ _ (List.cons_ne_nil _ _), if_pos hchild, hset]
          exact ⟨_, rfl⟩

end Deblob.Umbrella
