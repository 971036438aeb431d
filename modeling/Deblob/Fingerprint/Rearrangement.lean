import Deblob.Fingerprint.Bucket
import Deblob.Fingerprint.Canon

/-!
# Documents with one shape

Documents that differ in the order of members, in the order and the number of copies of array
elements, and in the values of scalars have one shape, and so one canonical encoding, fingerprint
and bucket. The sets of element shapes are insensitive to order and copies because the order of
shapes is a strict total one.
-/

namespace Deblob.Fingerprint

open Core Lib

/-! ## The order of shapes -/

/-- A lexicographic step of a transitive comparison. -/
theorem then_lt_trans {left right both leftRest rightRest bothRest : Ordering}
    (hlt : left = .lt → right = .lt → both = .lt) (hleft : left = .eq → both = right)
    (hright : right = .eq → both = left)
    (hrest : leftRest = .lt → rightRest = .lt → bothRest = .lt)
    (hfirst : left.then leftRest = .lt) (hsecond : right.then rightRest = .lt) :
    both.then bothRest = .lt := by
  rw [Ordering.then_eq_lt] at hfirst hsecond ⊢
  rcases hfirst with hfirst | ⟨hfirst, hfirstRest⟩
  · rcases hsecond with hsecond | ⟨hsecond, -⟩
    · exact .inl (hlt hfirst hsecond)
    · exact .inl ((hright hsecond).trans hfirst)
  · rcases hsecond with hsecond | ⟨hsecond, hsecondRest⟩
    · exact .inl ((hleft hfirst).trans hsecond)
    · exact .inr ⟨(hleft hfirst).trans hsecond, hrest hfirstRest hsecondRest⟩

theorem Emptiness.compare_swap (left right : Emptiness) :
    (compare left right).swap = compare right left := by
  cases left <;> cases right <;> rfl

theorem Emptiness.compare_lt_trans {left middle right : Emptiness}
    (hleft : compare left middle = .lt) (hright : compare middle right = .lt) :
    compare left right = .lt := by
  revert hleft hright
  cases left <;> cases middle <;> cases right <;> decide

mutual

theorem Shape.cmp_swap : (left right : Shape) → (left.cmp right).swap = right.cmp left
  | .array left leftEmptiness, .array right rightEmptiness => by
    rw [Shape.cmp, Shape.cmp, Ordering.swap_then, cmpElements_swap left right,
      Emptiness.compare_swap]
  | .object left, .object right => cmpFields_swap left right
  | .null, right | .bool, right | .number, right | .string, right => by
    cases right <;> rfl
  | .array .., .null | .array .., .bool | .array .., .number | .array .., .string
  | .array .., .object _ => rfl
  | .object _, .null | .object _, .bool | .object _, .number | .object _, .string
  | .object _, .array .. => rfl

theorem cmpElements_swap :
    (left right : List Shape) → (cmpElements left right).swap = cmpElements right left
  | [], [] | [], _ :: _ | _ :: _, [] => rfl
  | left :: lefts, right :: rights => by
    rw [cmpElements, cmpElements, Ordering.swap_then, left.cmp_swap right,
      cmpElements_swap lefts rights]

theorem cmpFields_swap :
    (left right : List (String × Shape)) → (cmpFields left right).swap = cmpFields right left
  | [], [] | [], _ :: _ | _ :: _, [] => rfl
  | (leftKey, left) :: lefts, (rightKey, right) :: rights => by
    have hkey : (compare leftKey rightKey).swap = compare rightKey leftKey :=
      Std.OrientedCmp.eq_swap.symm
    rw [cmpFields, cmpFields, Ordering.swap_then, Ordering.swap_then, hkey, left.cmp_swap right,
      cmpFields_swap lefts rights]

end

mutual

theorem Shape.cmp_self : (shape : Shape) → shape.cmp shape = .eq
  | .null | .bool | .number | .string => rfl
  | .array elements emptiness => by
    rw [Shape.cmp, cmpElements_self elements]
    cases emptiness <;> rfl
  | .object fields => cmpFields_self fields

theorem cmpElements_self : (shapes : List Shape) → cmpElements shapes shapes = .eq
  | [] => rfl
  | shape :: shapes => by
    rw [cmpElements, shape.cmp_self, cmpElements_self shapes]
    rfl

theorem cmpFields_self : (fields : List (String × Shape)) → cmpFields fields fields = .eq
  | [] => rfl
  | (key, shape) :: fields => by
    rw [cmpFields, shape.cmp_self, cmpFields_self fields, compare_eq_iff_eq.mpr rfl]
    rfl

end

mutual

theorem Shape.cmp_lt_trans : (left middle right : Shape) → left.cmp middle = .lt →
    middle.cmp right = .lt → left.cmp right = .lt
  | .array left leftEmptiness, middle, right, hleft, hright => by
    cases middle with
    | array middle middleEmptiness =>
        cases right with
        | array right rightEmptiness =>
            rw [Shape.cmp] at hleft hright ⊢
            exact then_lt_trans (cmpElements_lt_trans left middle right)
              (fun heq ↦ by rw [eq_of_cmpElements _ _ heq])
              (fun heq ↦ by rw [eq_of_cmpElements _ _ heq]) Emptiness.compare_lt_trans hleft hright
        | object _ => rfl
        | _ => cases hright
    | object _ =>
        cases right with
        | object _ => rfl
        | _ => cases hright
    | _ => cases hleft
  | .object left, middle, right, hleft, hright => by
    cases middle with
    | object middle =>
        cases right with
        | object right => exact cmpFields_lt_trans left middle right hleft hright
        | _ => cases hright
    | _ => cases hleft
  | .null, middle, right, hleft, hright | .bool, middle, right, hleft, hright
  | .number, middle, right, hleft, hright | .string, middle, right, hleft, hright => by
    cases middle <;> cases right <;> first | rfl | contradiction

theorem cmpElements_lt_trans : (left middle right : List Shape) → cmpElements left middle = .lt →
    cmpElements middle right = .lt → cmpElements left right = .lt
  | [], [], _, hleft, _ => by cases hleft
  | [], _ :: _, [], _, hright => by cases hright
  | [], _ :: _, _ :: _, _, _ => rfl
  | _ :: _, [], _, hleft, _ => by cases hleft
  | _ :: _, _ :: _, [], _, hright => by cases hright
  | left :: lefts, middle :: middles, right :: rights, hleft, hright => by
    rw [cmpElements] at hleft hright ⊢
    exact then_lt_trans (left.cmp_lt_trans middle right)
      (fun heq ↦ by rw [left.eq_of_cmp middle heq])
      (fun heq ↦ by rw [middle.eq_of_cmp right heq])
      (cmpElements_lt_trans lefts middles rights) hleft hright

theorem cmpFields_lt_trans : (left middle right : List (String × Shape)) →
    cmpFields left middle = .lt → cmpFields middle right = .lt → cmpFields left right = .lt
  | [], [], _, hleft, _ => by cases hleft
  | [], _ :: _, [], _, hright => by cases hright
  | [], _ :: _, _ :: _, _, _ => rfl
  | _ :: _, [], _, hleft, _ => by cases hleft
  | _ :: _, _ :: _, [], _, hright => by cases hright
  | (leftKey, left) :: lefts, (middleKey, middle) :: middles, (rightKey, right) :: rights, hleft,
      hright => by
    rw [cmpFields] at hleft hright ⊢
    refine then_lt_trans (fun hfirst hsecond ↦ Std.TransCmp.lt_trans hfirst hsecond)
      (fun heq ↦ by rw [compare_eq_iff_eq.mp heq]) (fun heq ↦ by rw [compare_eq_iff_eq.mp heq]) ?_
      hleft hright
    exact then_lt_trans (left.cmp_lt_trans middle right)
      (fun heq ↦ by rw [left.eq_of_cmp middle heq])
      (fun heq ↦ by rw [middle.eq_of_cmp right heq])
      (cmpFields_lt_trans lefts middles rights)

end

instance : Std.LawfulEqCmp Shape.cmp where
  compare_self {shape} := shape.cmp_self
  eq_of_compare {left right} := left.eq_of_cmp right

instance : Std.TransCmp Shape.cmp where
  eq_swap {left right} := (right.cmp_swap left).symm
  isLE_trans {left middle right} hleft hright := by
    cases hfirst : left.cmp middle with
    | gt =>
        rw [hfirst] at hleft
        cases hleft
    | eq =>
        rw [left.eq_of_cmp middle hfirst]
        exact hright
    | lt =>
        cases hsecond : middle.cmp right with
        | gt =>
            rw [hsecond] at hright
            cases hright
        | eq =>
            rw [← middle.eq_of_cmp right hsecond]
            exact hleft
        | lt =>
            rw [left.cmp_lt_trans middle right hfirst hsecond]
            rfl

/-! ## Rearranged documents -/

/-- Documents that differ in the order of members, in the order and the number of copies of array
elements, and in the values of scalars, at any depth. No array exceeds the inspection cap, and the
keys of an object are distinct. -/
inductive Rearranged : Node → Node → Prop
  | refl (node : Node) : Rearranged node node
  | symm {left right : Node} : Rearranged left right → Rearranged right left
  | trans {left middle right : Node} :
      Rearranged left middle → Rearranged middle right → Rearranged left right
  | bool (left right : Bool) : Rearranged (.bool left) (.bool right)
  | number (left right : String) : Rearranged (.number left) (.number right)
  | string (left right : String) : Rearranged (.string left) (.string right)
  | permuteElements {left right : List Node} (hperm : left.Perm right) :
      Rearranged (.array left false) (.array right false)
  | copyElement {items : List Node} {item : Node} (hitem : item ∈ items) :
      Rearranged (.array items false) (.array (item :: items) false)
  | permuteMembers {left right : List (String × Node)} (hkeys : (left.map Prod.fst).Nodup)
      (hperm : left.Perm right) : Rearranged (.object left) (.object right)
  | element {left right : Node} (before after : List Node) (helement : Rearranged left right) :
      Rearranged (.array (before ++ left :: after) false) (.array (before ++ right :: after) false)
  | member {left right : Node} (before after : List (String × Node)) (key : String)
      (hvalue : Rearranged left right) :
      Rearranged (.object (before ++ (key, left) :: after))
        (.object (before ++ (key, right) :: after))

theorem shapeOf_array_congr {left right : List Node}
    (hmem : ∀ shape, shape ∈ left.map shapeOf ↔ shape ∈ right.map shapeOf) :
    shapeOf (.array left false) = shapeOf (.array right false) := by
  have hset : collectSet Shape.cmp (shapesOf left) = collectSet Shape.cmp (shapesOf right) := by
    rw [shapesOf_eq, shapesOf_eq]
    exact collectSet_congr hmem
  have hempty : left.isEmpty = right.isEmpty := by
    cases left with
    | nil =>
        cases right with
        | nil => rfl
        | cons item items =>
            exact absurd ((hmem (shapeOf item)).mpr List.mem_cons_self) List.not_mem_nil
    | cons item items =>
        cases right with
        | nil => exact absurd ((hmem (shapeOf item)).mp List.mem_cons_self) List.not_mem_nil
        | cons other others => rfl
  rw [shapeOf, shapeOf, hset, hempty]

theorem shapeOf_object_perm {left right : List (String × Node)}
    (hkeys : (left.map Prod.fst).Nodup) (hperm : left.Perm right) :
    shapeOf (.object left) = shapeOf (.object right) := by
  have hkeysOf (fields : List (String × Node)) :
      (fields.map fun field ↦ (field.1, shapeOf field.2)).map Prod.fst = fields.map Prod.fst := by
    rw [List.map_map]
    rfl
  have hmaps : (collectMap (left.map fun field ↦ (field.1, shapeOf field.2))).Perm
      (collectMap (right.map fun field ↦ (field.1, shapeOf field.2))) := by
    have hleft := collectMap_perm ((hkeysOf left).symm ▸ hkeys)
    have hright := collectMap_perm ((hkeysOf right).symm ▸ (hperm.map Prod.fst).nodup_iff.mp hkeys)
    exact hleft.trans ((hperm.map _).trans hright.symm)
  have heq : collectMap (left.map fun field ↦ (field.1, shapeOf field.2)) =
      collectMap (right.map fun field ↦ (field.1, shapeOf field.2)) :=
    hmaps.eq_of_pairwise (fun _ _ _ _ hlt hgt ↦ absurd hlt hgt.not_gt) (sortedKeys_collectMap _)
      (sortedKeys_collectMap _)
  rw [shapeOf, shapeOf, fieldShapesOf_eq, fieldShapesOf_eq, heq]

/-- Rearranged documents have one shape. -/
theorem Rearranged.shapeOf_eq {left right : Node} (hrearranged : Rearranged left right) :
    shapeOf left = shapeOf right := by
  induction hrearranged with
  | refl node => rfl
  | symm _ ih => exact ih.symm
  | trans _ _ ihLeft ihRight => exact ihLeft.trans ihRight
  | bool | number | string => rfl
  | permuteElements hperm => exact shapeOf_array_congr fun _ ↦ (hperm.map shapeOf).mem_iff
  | copyElement hitem =>
      apply shapeOf_array_congr
      intro shape
      rw [List.map_cons, List.mem_cons]
      apply Iff.symm
      apply or_iff_right_of_imp
      rintro rfl
      exact List.mem_map_of_mem hitem
  | permuteMembers hkeys hperm => exact shapeOf_object_perm hkeys hperm
  | element before after _ ih =>
      apply shapeOf_array_congr
      intro shape
      rw [List.map_append, List.map_append, List.map_cons, List.map_cons, ih]
  | member before after key _ ih =>
      rw [shapeOf, shapeOf, fieldShapesOf_eq, fieldShapesOf_eq, List.map_append, List.map_append,
        List.map_cons, List.map_cons, ih]

/-- Rearranging a document changes neither its shape nor what is derived from the shape. -/
theorem shape_invariant (sha256 : Bytes → Digest) {left right : Node}
    (hrearranged : Rearranged left right) :
    shapeOf left = shapeOf right ∧
      canonicalBytes (shapeOf left) = canonicalBytes (shapeOf right) ∧
      fingerprint sha256 (shapeOf left) = fingerprint sha256 (shapeOf right) ∧
      bucketKey sha256 (summarize (shapeOf left)) =
        bucketKey sha256 (summarize (shapeOf right)) := by
  rw [hrearranged.shapeOf_eq]
  exact ⟨rfl, rfl, rfl, rfl⟩

/-- A document, and a rearranged copy of it with other scalars. -/
def tidyDocument : Node :=
  .object [("id", .number "1"), ("tags", .array [.string "a", .null] false)]

def shuffledDocument : Node :=
  .object [("tags", .array [.null, .string "b", .string "a"] false), ("id", .number "2.5")]

theorem rearranged_documents : Rearranged tidyDocument shuffledDocument := by
  have hscalar : Rearranged tidyDocument
      (.object [("id", .number "2.5"), ("tags", .array [.string "a", .null] false)]) :=
    .member [] _ "id" (.number _ _)
  have hcopy : Rearranged (.array [.string "a", .null] false)
      (.array [.string "a", .string "a", .null] false) :=
    .copyElement List.mem_cons_self
  have helement : Rearranged (.array [.string "a", .string "a", .null] false)
      (.array [.string "b", .string "a", .null] false) :=
    .element [] _ (.string _ _)
  have hswap : Rearranged (.array [.string "b", .string "a", .null] false)
      (.array [.null, .string "b", .string "a"] false) :=
    .permuteElements (@List.perm_append_comm _ [_, _] [_])
  have htags : Rearranged
      (.object [("id", .number "2.5"), ("tags", .array [.string "a", .null] false)])
      (.object [("id", .number "2.5"), ("tags", .array [.null, .string "b", .string "a"] false)]) :=
    .member [("id", .number "2.5")] [] "tags" (.trans hcopy (.trans helement hswap))
  exact .trans hscalar (.trans htags (.permuteMembers (by decide) (.swap _ _ _)))

/-- The digests of the two documents' common encoding and of their keys. -/
def documentSha256 (bytes : Bytes) : Digest :=
  if bytes = preimage (shapeOf tidyDocument) then
    #v[160, 156, 180, 159, 206, 204, 93, 217, 231, 178, 255, 108, 124, 85, 173, 124,
      41, 201, 193, 64, 99, 196, 15, 225, 196, 194, 169, 168, 77, 119, 103, 52]
  else if bytes = ascii "id\x00tags" then
    #v[114, 79, 105, 241, 130, 53, 144, 16, 14, 86, 152, 127, 192, 25, 183, 214,
      44, 102, 3, 86, 160, 18, 42, 71, 98, 255, 172, 136, 61, 233, 48, 112]
  else .replicate 32 0

theorem shape_invariant_documents :
    shapeOf tidyDocument = shapeOf shuffledDocument ∧
      canonicalBytes (shapeOf tidyDocument) = canonicalBytes (shapeOf shuffledDocument) ∧
      fingerprint documentSha256 (shapeOf tidyDocument) =
        fingerprint documentSha256 (shapeOf shuffledDocument) ∧
      bucketKey documentSha256 (summarize (shapeOf tidyDocument)) =
        bucketKey documentSha256 (summarize (shapeOf shuffledDocument)) :=
  shape_invariant documentSha256 rearranged_documents

end Deblob.Fingerprint
