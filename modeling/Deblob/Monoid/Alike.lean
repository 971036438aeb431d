import Deblob.Monoid.Laws

/-!
# Documents that differ in their values only

Two documents are alike if they have the same keys, types, array lengths and truncations, and numbers
in the same bucket, written as integers or not, and zeros with the same sign. What strings, booleans
and numbers say beyond that leaves no trace in a profile.
-/

namespace Deblob.Monoid

open Core Lib Fingerprint

/-- Two nodes agree on all but the values. -/
inductive Alike : Node → Node → Prop
  | null : Alike .null .null
  | bool (value other : Bool) : Alike (.bool value) (.bool other)
  | number {text other : String} (intText : isIntText text = isIntText other)
      (negZero : isNegZero text = isNegZero other)
      (bucket : classifyNumericBucket text = classifyNumericBucket other) :
      Alike (.number text) (.number other)
  | string (text other : String) : Alike (.string text) (.string other)
  | array {items others : List Node} (truncated : Bool) (length : items.length = others.length)
      (pointwise : ∀ (index : ℕ) (item other : Node), items[index]? = some item →
        others[index]? = some other → Alike item other) :
      Alike (.array items truncated) (.array others truncated)
  | object {fields others : List (String × Node)}
      (keys : ∀ key, ((Node.object fields).valueAt key).isSome =
        ((Node.object others).valueAt key).isSome)
      (values : ∀ key value other, (Node.object fields).valueAt key = some value →
        (Node.object others).valueAt key = some other → Alike value other) :
      Alike (.object fields) (.object others)

/-- The field of a key has the statistics of the key's value. -/
theorem lookup_children_fromNode (fields : List (String × Node)) (key : String) :
    (FieldNode.fromNode (.object fields)).children.lookup key =
      ((Node.object fields).valueAt key).map FieldNode.fromNode := by
  change (collectMap (FieldNode.fromFields fields)).lookup key = _
  rw [lookup_collectMap, fromFields_eq, ← List.map_reverse, lookup_mapValues]
  rfl

/-- Documents that are alike have the same statistics. -/
theorem Alike.fromNode_eq {node other : Node} (halike : Alike node other) :
    FieldNode.fromNode node = FieldNode.fromNode other := by
  induction halike with
  | null => rfl
  | bool => rfl
  | string => rfl
  | number intText negZero bucket =>
      rw [FieldNode.fromNode, FieldNode.fromNode, intText, negZero, bucket]
  | @array items others truncated length _ ih =>
      have hitems : FieldNode.fromNodes items = FieldNode.fromNodes others := by
        rw [fromNodes_eq, fromNodes_eq]
        apply List.ext_getElem (by rw [List.length_map, List.length_map, length])
        intro index hitem hother
        rw [List.length_map] at hitem hother
        rw [List.getElem_map, List.getElem_map]
        exact ih index _ _ (List.getElem?_eq_getElem hitem) (List.getElem?_eq_getElem hother)
      have hempty : items.isEmpty = others.isEmpty := by
        rw [Bool.eq_iff_iff, List.isEmpty_iff_length_eq_zero, List.isEmpty_iff_length_eq_zero, length]
      rw [FieldNode.fromNode, FieldNode.fromNode, hitems, hempty]
  | @object fields others keys _ ih =>
      have hchildren : (FieldNode.fromNode (.object fields)).children =
          (FieldNode.fromNode (.object others)).children := by
        apply (sortedKeys_collectMap _).ext (sortedKeys_collectMap _)
        intro key
        change (FieldNode.fromNode (.object fields)).children.lookup key =
          (FieldNode.fromNode (.object others)).children.lookup key
        rw [lookup_children_fromNode, lookup_children_fromNode]
        have hkey := keys key
        cases hvalue : (Node.object fields).valueAt key with
        | none =>
            rw [hvalue, Option.isSome_none] at hkey
            rw [Option.not_isSome_iff_eq_none.mp (Bool.eq_false_iff.mp hkey.symm)]
        | some value =>
            rw [hvalue, Option.isSome_some] at hkey
            rcases Option.isSome_iff_exists.mp hkey.symm with ⟨other, hother⟩
            rw [hother, Option.map_some, Option.map_some, ih key value other hvalue hother]
      change collectMap (FieldNode.fromFields fields) =
        collectMap (FieldNode.fromFields others) at hchildren
      rw [FieldNode.fromNode, FieldNode.fromNode, hchildren]

section

variable {docs others : List Node}

theorem map_fromNode_eq (halike : List.Forall₂ Alike docs others) :
    docs.map Profile.fromNode = others.map Profile.fromNode := by
  induction halike with
  | nil => rfl
  | cons hdoc _ ih => rw [List.map_cons, List.map_cons, ih, Profile.fromNode, hdoc.fromNode_eq]; rfl

/-- Merging in the order of the documents. -/
theorem profileOf_eq_map (docs : List Node) :
    profileOf docs = match docs.map Profile.fromNode with
      | [] => .identity
      | profile :: profiles => profiles.foldl Profile.merge profile := by
  cases docs with
  | nil => rfl
  | cons doc docs =>
      rw [profileOf, List.map_cons]
      exact List.foldl_map.symm

/-- Sequences of documents that are alike have one profile. -/
theorem profileOf_eq_of_alike (halike : List.Forall₂ Alike docs others) :
    profileOf docs = profileOf others := by
  rw [profileOf_eq_map, profileOf_eq_map, map_fromNode_eq halike]

end

end Deblob.Monoid
