import Deblob.Fingerprint.Bucket
import Deblob.Monoid.Counters
import Mathlib.Data.Option.Basic

/-!
# The bucket of a generalized schema

A published schema is indexed under the summary of its profile, which is read from the fields and
not from the generalized JSON. The JSON leaves nothing out that the summary depends on: it fixes
the keys, types, flags and elements at every position, and with them the depth and the bucket.
-/

namespace Deblob.Cold

open Core Lib Fingerprint
open Deblob.Monoid

/-! ## The summary -/

mutual

def fieldDepth : FieldNode → ℕ
  | ⟨_, _, _, children, arrayElem, _, _, _, _, _⟩ =>
    1 + max (childrenDepth children) (elemDepth arrayElem)

def childrenDepth : List (String × FieldNode) → ℕ
  | [] => 0
  | (_, child) :: children => max (fieldDepth child) (childrenDepth children)

def elemDepth : Option FieldNode → ℕ
  | none => 0
  | some elem => fieldDepth elem

end

def generalizedShapeSummary (profile : Profile) : ShapeSummary where
  topLevelFields := profile.root.children.length
  depth := fieldDepth profile.root
  topKeysSorted := profile.root.children.map Prod.fst

/-! ## The depth of a view -/

mutual

def viewDepth : View → ℕ
  | ⟨_, _, children, elem⟩ => 1 + max (childViewsDepth children) (elemViewDepth elem)

def childViewsDepth : List (String × View) → ℕ
  | [] => 0
  | (_, child) :: children => max (viewDepth child) (childViewsDepth children)

def elemViewDepth : Option View → ℕ
  | none => 0
  | some elem => viewDepth elem

end

mutual

theorem viewDepth_view (denom : ℕ) : (field : FieldNode) →
    viewDepth (field.view denom) = fieldDepth field
  | ⟨_, _, types, children, arrayElem, _, _, _, _, _⟩ => by
    rw [FieldNode.view, viewDepth, fieldDepth, childViewsDepth_eq types.object children,
      elemViewDepth_eq types.array arrayElem]

theorem childViewsDepth_eq (denom : ℕ) : (children : List (String × FieldNode)) →
    childViewsDepth (childViews denom children) = childrenDepth children
  | [] => rfl
  | (_, child) :: children => by
    rw [childViews, childViewsDepth, childrenDepth, viewDepth_view denom child,
      childViewsDepth_eq denom children]

theorem elemViewDepth_eq (denom : ℕ) : (elem : Option FieldNode) →
    elemViewDepth (elemView denom elem) = elemDepth elem
  | none => rfl
  | some elem => by rw [elemView, elemViewDepth, elemDepth, viewDepth_view denom elem]

end

theorem keys_view (field : FieldNode) (denom : ℕ) :
    (field.view denom).children.map Prod.fst = field.children.map Prod.fst := by
  rw [view_eq, List.map_map]
  rfl

/-- Profiles of one view have one summary. -/
theorem summary_of_view_eq {left right : Profile}
    (hview : left.root.view left.count = right.root.view right.count) :
    generalizedShapeSummary left = generalizedShapeSummary right := by
  have hkeys : left.root.children.map Prod.fst = right.root.children.map Prod.fst := by
    rw [← keys_view left.root left.count, hview, keys_view]
  have hdepth : fieldDepth left.root = fieldDepth right.root := by
    rw [← viewDepth_view left.count, hview, viewDepth_view]
  have hlength : left.root.children.length = right.root.children.length := by
    simpa only [List.length_map] using congrArg List.length hkeys
  unfold generalizedShapeSummary
  rw [hkeys, hdepth, hlength]

/-! ## The fields at a position -/

/-- The field at a position below another, with the count that its presence is compared with. -/
def fieldAt : List Step → ℕ → FieldNode → Option (ℕ × FieldNode)
  | [], denom, field => some (denom, field)
  | .key name :: path, _, field =>
    (field.children.lookup name).bind (fieldAt path field.types.object)
  | .elem :: path, _, field => field.arrayElem.bind (fieldAt path field.types.array)

def typeNames (field : FieldNode) : List String :=
  (field.types.named.filter fun named ↦ 0 < named.2).map Prod.fst

/-- Two fields agree on all that the generalized JSON says about a position. -/
structure AgreeAt (left right : ℕ × FieldNode) : Prop where
  keys : left.2.children.map Prod.fst = right.2.children.map Prod.fst
  types : typeNames left.2 = typeNames right.2
  optional : left.2.present < left.1 ↔ right.2.present < right.1
  elem : left.2.arrayElem.isSome = right.2.arrayElem.isSome

theorem viewAt_view (path : List Step) (denom : ℕ) (field : FieldNode) :
    viewAt path (field.view denom) =
      (fieldAt path denom field).map fun found ↦ found.2.view found.1 := by
  induction path generalizing denom field with
  | nil => rfl
  | cons step path ih =>
      cases step with
      | key name =>
          rw [viewAt, children_view, fieldAt]
          cases field.children.lookup name with
          | none => rfl
          | some child => exact ih field.types.object child
      | elem =>
          rw [viewAt, elem_view, fieldAt]
          cases field.arrayElem with
          | none => rfl
          | some elem => exact ih field.types.array elem

theorem agreeAt_of_view {left right : ℕ × FieldNode}
    (hview : left.2.view left.1 = right.2.view right.1) : AgreeAt left right := by
  constructor
  · rw [← keys_view left.2 left.1, hview, keys_view]
  · have htypes := congrArg View.types hview
    rw [view_eq, view_eq] at htypes
    exact htypes
  · have hoptional := congrArg View.optional hview
    rw [optional_view, optional_view] at hoptional
    exact decide_eq_decide.mp hoptional
  · have helem := congrArg (fun view ↦ view.elem.isSome) hview
    simpa only [elem_view, Option.isSome_map] using helem

/-! ## One fingerprint, one bucket -/

/-- The bytes of which the generalized fingerprint is the digest. -/
def generalizedPreimage (profile : Profile) : Bytes :=
  ascii generalizer ++ ([0] ++ (ascii "\x7b\"gen\":\"" ++ (ascii generalizer ++
    (ascii "\",\"fields\":" ++ (profile.generalizedCanonicalJson ++ ascii "\x7d")))))

theorem generalizedFingerprint_eq (sha256 : Bytes → Digest) (profile : Profile) :
    profile.generalizedFingerprint sha256 = sha256 (generalizedPreimage profile) :=
  rfl

theorem generalizedPreimage_injective {left right : Profile}
    (hpreimage : generalizedPreimage left = generalizedPreimage right) :
    left.generalizedCanonicalJson = right.generalizedCanonicalJson := by
  unfold generalizedPreimage at hpreimage
  simp only [List.append_cancel_left_eq, List.append_cancel_right_eq] at hpreimage
  exact hpreimage

/-- Profiles with one generalized JSON agree at every position and have one bucket. Without a
collision of the digest this is so for one generalized fingerprint. -/
theorem generalized_json_faithful (sha256 : Bytes → Digest) (left right : Profile) :
    (left.generalizedCanonicalJson = right.generalizedCanonicalJson →
      (∀ path, Option.Rel AgreeAt (fieldAt path left.count left.root)
        (fieldAt path right.count right.root)) ∧
      generalizedShapeSummary left = generalizedShapeSummary right ∧
      bucketKey sha256 (generalizedShapeSummary left) =
        bucketKey sha256 (generalizedShapeSummary right)) ∧
    ((sha256 (generalizedPreimage left) = sha256 (generalizedPreimage right) →
        generalizedPreimage left = generalizedPreimage right) →
      left.generalizedFingerprint sha256 = right.generalizedFingerprint sha256 →
      bucketKey sha256 (generalizedShapeSummary left) =
        bucketKey sha256 (generalizedShapeSummary right)) := by
  have hsummary (hjson : left.generalizedCanonicalJson = right.generalizedCanonicalJson) :
      generalizedShapeSummary left = generalizedShapeSummary right :=
    summary_of_view_eq ((generalizedCanonicalJson_eq_iff left right).mp hjson)
  constructor
  · intro hjson
    refine ⟨fun path ↦ ?_, hsummary hjson, by rw [hsummary hjson]⟩
    have hview := congrArg (viewAt path) ((generalizedCanonicalJson_eq_iff left right).mp hjson)
    rw [viewAt_view, viewAt_view] at hview
    cases hleft : fieldAt path left.count left.root with
    | none =>
        rw [hleft, Option.map_none] at hview
        rw [Option.map_eq_none_iff.mp hview.symm]
        exact .none
    | some found =>
        rw [hleft, Option.map_some] at hview
        rcases Option.map_eq_some_iff.mp hview.symm with ⟨other, hright, hother⟩
        rw [hright]
        exact .some (agreeAt_of_view hother.symm)
  · intro hcollision hfingerprint
    rw [hsummary (generalizedPreimage_injective (hcollision hfingerprint))]

/-- Two objects, one of them with a second member, read twice with other values. -/
def sampleLeft : MergeTree Node :=
  .node (.leaf (.object [("a", .string "x")]))
    (.leaf (.object [("a", .string "y"), ("b", .array [.number "1"] false)]))

def sampleRight : MergeTree Node :=
  .node (.leaf (.object [("b", .array [.number "2", .number "3"] false), ("a", .string "z")]))
    (.leaf (.object [("a", .string "")]))

/-- The digests of the sample's generalized schema and of its keys. -/
def sampleSha256 (bytes : Bytes) : Digest :=
  if bytes = generalizedPreimage (profileOfTree sampleLeft) then
    #v[199, 233, 82, 117, 101, 129, 17, 25, 141, 42, 50, 98, 185, 180, 59, 211, 186,
        69, 205, 130, 182, 213, 93, 225, 149, 60, 188, 100, 132, 254, 220, 32]
  else if bytes = ascii "a\x00b" then
    #v[89, 178, 113, 174, 27, 188, 177, 211, 29, 65, 146, 152, 23, 244, 177, 111, 180,
        57, 235, 79, 49, 82, 11, 90, 209, 213, 206, 152, 146, 10, 113, 56]
  else .replicate 32 0

theorem generalized_json_faithful_sample :
    generalizedShapeSummary (profileOfTree sampleLeft) =
        generalizedShapeSummary (profileOfTree sampleRight) ∧
      bucketKey sampleSha256 (generalizedShapeSummary (profileOfTree sampleLeft)) =
        bucketKey sampleSha256 (generalizedShapeSummary (profileOfTree sampleRight)) := by
  have hjson : (profileOfTree sampleLeft).generalizedCanonicalJson =
      (profileOfTree sampleRight).generalizedCanonicalJson := by
    decide +kernel
  have hpreimage : generalizedPreimage (profileOfTree sampleLeft) =
      generalizedPreimage (profileOfTree sampleRight) := by
    unfold generalizedPreimage
    rw [hjson]
  have hfingerprint : (profileOfTree sampleLeft).generalizedFingerprint sampleSha256 =
      (profileOfTree sampleRight).generalizedFingerprint sampleSha256 := by
    rw [generalizedFingerprint_eq, generalizedFingerprint_eq, hpreimage]
  have hfaithful := generalized_json_faithful sampleSha256 (profileOfTree sampleLeft)
    (profileOfTree sampleRight)
  exact ⟨(hfaithful.1 hjson).2.1, hfaithful.2 (fun _ ↦ hpreimage) hfingerprint⟩

end Deblob.Cold
