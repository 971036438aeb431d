import Deblob.Fingerprint.Parse
import Mathlib.Algebra.Order.BigOperators.Group.List

/-!
# Strictness and the inspection cap

`readDocument` reads the whole tree of a document with no cap and no check of its objects. The
parser accepts exactly the documents whose inspected objects are strict, and returns their trees cut
at the cap. Whether the cap can hide a malformed object is then a question about these trees.
-/

namespace Deblob.Fingerprint

open Core Lib
open Lib.Parser

/-! ## The tree of a document -/

def readMember (limits : Limits) (readValue : Parser Node) (fields : List (String × Node)) :
    Parser (List (String × Node)) := do
  let key ← memberKey limits
  colon
  let value ← readValue
  return fields ++ [(key, value)]

def readObject (limits : Limits) (readValue : Parser Node) : Parser Node :=
  container '}' (readMember limits readValue) .object []

def readElement (readValue : Parser Node) (items : List Node) : Parser (List Node) := do
  let value ← readValue
  return items ++ [value]

def readArray (readValue : Parser Node) : Parser Node :=
  container ']' (readElement readValue) (.array · false) []

/-- The grammar of values, with the bounds on nesting, keys and strings. -/
def readValue (limits : Limits) : ℕ → Parser Node
  | 0 => dispatch limits id (throw .depthExceeded) (throw .depthExceeded)
  | levels + 1 => dispatch limits id (readObject limits (readValue limits levels))
      (readArray (readValue limits levels))

def readDocument (limits : Limits) (bytes : List UInt8) : Except QuarantineReason Node :=
  document limits (readValue limits limits.maxDepth) bytes

/-- The members of one object. -/
abbrev Fields := List (String × Node)

mutual

/-- All objects of a tree. -/
def Node.objects : Node → List Fields
  | .array items _ => objectsOfItems items
  | .object fields => fields :: objectsOfFields fields
  | _ => []

def objectsOfItems : List Node → List Fields
  | [] => []
  | item :: items => item.objects ++ objectsOfItems items

def objectsOfFields : Fields → List Fields
  | [] => []
  | (_, value) :: fields => value.objects ++ objectsOfFields fields

end

mutual

/-- The objects of a tree that are not inside an element past `cap`. -/
def Node.inspected (cap : ℕ) : Node → List Fields
  | .array items _ => inspectedItems cap cap items
  | .object fields => fields :: inspectedFields cap fields
  | _ => []

def inspectedItems (cap : ℕ) : ℕ → List Node → List Fields
  | _, [] => []
  | 0, _ :: _ => []
  | room + 1, item :: items => item.inspected cap ++ inspectedItems cap room items

def inspectedFields (cap : ℕ) : Fields → List Fields
  | [] => []
  | (_, value) :: fields => value.inspected cap ++ inspectedFields cap fields

end

mutual

/-- The objects of a tree inside elements past `cap`. -/
def Node.skipped (cap : ℕ) : Node → List Fields
  | .array items _ => skippedItems cap cap items
  | .object fields => skippedFields cap fields
  | _ => []

def skippedItems (cap : ℕ) : ℕ → List Node → List Fields
  | _, [] => []
  | 0, item :: items => item.objects ++ objectsOfItems items
  | room + 1, item :: items => item.skipped cap ++ skippedItems cap room items

def skippedFields (cap : ℕ) : Fields → List Fields
  | [] => []
  | (_, value) :: fields => value.skipped cap ++ skippedFields cap fields

end

mutual

/-- The tree with every array cut to its first `cap` elements. -/
def Node.cut (cap : ℕ) : Node → Node
  | .array items truncated => .array (cutItems cap cap items) (truncated || cap < items.length)
  | .object fields => .object (cutFields cap fields)
  | node => node

def cutItems (cap : ℕ) : ℕ → List Node → List Node
  | _, [] => []
  | 0, _ :: _ => []
  | room + 1, item :: items => item.cut cap :: cutItems cap room items

def cutFields (cap : ℕ) : Fields → Fields
  | [] => []
  | (key, value) :: fields => (key, value.cut cap) :: cutFields cap fields

end

mutual

/-- All arrays of a tree. -/
def Node.arrays : Node → List (List Node)
  | .array items _ => items :: arraysOfItems items
  | .object fields => arraysOfFields fields
  | _ => []

def arraysOfItems : List Node → List (List Node)
  | [] => []
  | item :: items => item.arrays ++ arraysOfItems items

def arraysOfFields : Fields → List (List Node)
  | [] => []
  | (_, value) :: fields => value.arrays ++ arraysOfFields fields

end

theorem inspectedItems_eq (cap room : ℕ) (items : List Node) :
    inspectedItems cap room items = (items.take room).flatMap (Node.inspected cap) := by
  induction items generalizing room with
  | nil => simp [inspectedItems]
  | cons item items ih => cases room <;> simp [inspectedItems, ih]

theorem inspectedFields_eq (cap : ℕ) (fields : Fields) :
    inspectedFields cap fields = fields.flatMap fun field ↦ field.2.inspected cap := by
  induction fields with
  | nil => rfl
  | cons field fields ih => simp [inspectedFields, ih]

theorem cutItems_eq (cap room : ℕ) (items : List Node) :
    cutItems cap room items = (items.take room).map (Node.cut cap) := by
  induction items generalizing room with
  | nil => simp [cutItems]
  | cons item items ih => cases room <;> simp [cutItems, ih]

theorem cutFields_eq (cap : ℕ) (fields : Fields) :
    cutFields cap fields = fields.map fun field ↦ (field.1, field.2.cut cap) := by
  induction fields with
  | nil => rfl
  | cons field fields ih => simp [cutFields, ih]

mutual

/-- Every object is inspected or skipped. -/
theorem Node.mem_objects_iff (cap : ℕ) (fields : Fields) : (node : Node) →
    (fields ∈ node.objects ↔ fields ∈ node.inspected cap ∨ fields ∈ node.skipped cap)
  | .array items _ => mem_objectsOfItems_iff cap fields cap items
  | .object members => by
    have hmembers := mem_objectsOfFields_iff cap fields members
    simp only [Node.objects, Node.inspected, Node.skipped, List.mem_cons, hmembers, or_assoc]
  | .null | .bool _ | .number _ | .string _ => by
    simp [Node.objects, Node.inspected, Node.skipped]

theorem mem_objectsOfItems_iff (cap : ℕ) (fields : Fields) : (room : ℕ) → (items : List Node) →
    (fields ∈ objectsOfItems items ↔
      fields ∈ inspectedItems cap room items ∨ fields ∈ skippedItems cap room items)
  | _, [] => by simp [objectsOfItems, inspectedItems, skippedItems]
  | 0, _ :: _ => by simp [objectsOfItems, inspectedItems, skippedItems]
  | room + 1, item :: items => by
    have hitem := item.mem_objects_iff cap fields
    have hitems := mem_objectsOfItems_iff cap fields room items
    simp only [objectsOfItems, inspectedItems, skippedItems, List.mem_append, hitem, hitems]
    tauto

theorem mem_objectsOfFields_iff (cap : ℕ) (fields : Fields) : (members : Fields) →
    (fields ∈ objectsOfFields members ↔
      fields ∈ inspectedFields cap members ∨ fields ∈ skippedFields cap members)
  | [] => by simp [objectsOfFields, inspectedFields, skippedFields]
  | (_, value) :: members => by
    have hvalue := value.mem_objects_iff cap fields
    have hmembers := mem_objectsOfFields_iff cap fields members
    simp only [objectsOfFields, inspectedFields, skippedFields, List.mem_append, hvalue, hmembers]
    tauto

end

mutual

/-- A cap that no array exceeds inspects everything. -/
theorem Node.inspected_of_wide {wide : ℕ} : {node : Node} →
    (∀ items ∈ node.arrays, items.length ≤ wide) → node.inspected wide = node.objects
  | .array items _, hwide => by
    obtain ⟨hitems, hinner⟩ := List.forall_mem_cons.mp hwide
    exact inspectedItems_of_wide hitems hinner
  | .object _, hwide => congrArg _ (inspectedFields_of_wide hwide)
  | .null, _ | .bool _, _ | .number _, _ | .string _, _ => rfl

theorem inspectedItems_of_wide {wide : ℕ} : {room : ℕ} → {items : List Node} →
    items.length ≤ room → (∀ inner ∈ arraysOfItems items, inner.length ≤ wide) →
    inspectedItems wide room items = objectsOfItems items
  | _, [], _, _ => by simp [inspectedItems, objectsOfItems]
  | room + 1, item :: items, hroom, hwide => by
    obtain ⟨hitem, hitems⟩ := List.forall_mem_append.mp hwide
    rw [inspectedItems, objectsOfItems, item.inspected_of_wide hitem,
      inspectedItems_of_wide (Nat.le_of_succ_le_succ hroom) hitems]

theorem inspectedFields_of_wide {wide : ℕ} : {members : Fields} →
    (∀ inner ∈ arraysOfFields members, inner.length ≤ wide) →
    inspectedFields wide members = objectsOfFields members
  | [], _ => rfl
  | (_, value) :: members, hwide => by
    obtain ⟨hvalue, hmembers⟩ := List.forall_mem_append.mp hwide
    rw [inspectedFields, objectsOfFields, value.inspected_of_wide hvalue,
      inspectedFields_of_wide hmembers]

end

/-! ## What the parser accepts -/

/-- An object without a repeated key and with at most `max_fields_per_object` members. -/
def StrictObject (limits : Limits) (fields : Fields) : Prop :=
  (fields.map Prod.fst).Nodup ∧ fields.length ≤ limits.maxFieldsPerObject

/-- The inspected objects of `doc` are strict, and `node` is the tree cut at the cap. -/
def Cut (limits : Limits) (doc node : Node) : Prop :=
  (∀ fields ∈ doc.inspected limits.maxArrayInspect, StrictObject limits fields) ∧
    node = doc.cut limits.maxArrayInspect

/-- The members read so far may begin an accepted object. -/
def StrictMembers (limits : Limits) (fields : Fields) : Prop :=
  (∀ inner ∈ inspectedFields limits.maxArrayInspect fields, StrictObject limits inner) ∧
    StrictObject limits fields

def StrictItems (limits : Limits) (items : List Node) : Prop :=
  ∀ fields ∈ inspectedItems limits.maxArrayInspect limits.maxArrayInspect items,
    StrictObject limits fields

def sortedKeys (fields : Fields) : List String := (fields.map Prod.fst).insertionSort (· ≤ ·)

/-- `Cut` for the members read so far, with their keys sorted. -/
def CutMembers (limits : Limits) (fields : Fields) (state : Fields × List String) : Prop :=
  StrictMembers limits fields ∧
    state = (cutFields limits.maxArrayInspect fields, sortedKeys fields)

/-- `Cut` for the elements read so far. -/
def CutElements (limits : Limits) (items : List Node) (state : ArrayState) : Prop :=
  StrictItems limits items ∧
    state = ⟨cutItems limits.maxArrayInspect limits.maxArrayInspect items,
      limits.maxArrayInspect < items.length, items.length⟩

section Rules

variable {σ τ α β : Type}

theorem require_bind_of {condition : Prop} [Decidable condition] {err : QuarantineReason}
    (hcondition : condition) (next : Unit → Parser α) :
    (require condition err >>= next) = next () := by
  unfold require
  rw [if_pos hcondition, pure_bind]

theorem require_bind_of_not {condition : Prop} [Decidable condition] {err : QuarantineReason}
    (hcondition : ¬ condition) (next : Unit → Parser α) :
    (require condition err >>= next) = throw err := by
  unfold require
  rw [if_neg hcondition]
  rfl

theorem dispatch_restricts (limits : Limits) {related : α → β → Prop} {leaf : Node → α}
    {narrowLeaf : Node → β} {object array : Parser α} {narrowObject narrowArray : Parser β}
    (hleaf : ∀ node : Node, node.inspected limits.maxArrayInspect = [] →
      node.cut limits.maxArrayInspect = node → related (leaf node) (narrowLeaf node))
    (hobject : Restricts related object narrowObject)
    (harray : Restricts related array narrowArray) :
    Restricts related (dispatch limits leaf object array)
      (dispatch limits narrowLeaf narrowObject narrowArray) := by
  refine .bind_same fun _ ↦ .bind_same fun next ↦ ?_
  split
  · exact hobject
  · exact harray
  · exact .bind_same fun text ↦ .pure (hleaf _ rfl rfl)
  · exact .bind_same fun _ ↦ .pure (hleaf _ rfl rfl)
  · exact .bind_same fun _ ↦ .pure (hleaf _ rfl rfl)
  · exact .bind_same fun _ ↦ .pure (hleaf _ rfl rfl)
  · split_ifs
    · exact .bind_same fun text ↦ .pure (hleaf _ rfl rfl)
    · exact .throw _ _ _
  · exact .throw _ _ _

theorem separator_restricts {states : σ → τ → Prop} {related : α → β → Prop} {close : Char}
    {finish : σ → α} {narrowFinish : τ → β} {state : σ} {other : τ} (hstates : states state other)
    (hfinish : related (finish state) (narrowFinish other)) :
    Restricts (Sum.LiftRel states related) (separator close finish state)
      (separator close narrowFinish other) := by
  refine .bind_same fun next ↦ ?_
  split_ifs
  · exact .pure (.inl hstates)
  · exact .pure (.inr hfinish)
  · exact .throw _ _ _

theorem separator_rejects {states : σ → τ → Prop} {related : α → β → Prop} {close : Char}
    {finish : σ → α} {state : σ} (hstates : ∀ other, ¬ states state other)
    (hfinish : ∀ other, ¬ related (finish state) other) :
    Rejects (Sum.LiftRel states related) (separator close finish state) := by
  refine .bind (fun next ↦ ?_) _
  split_ifs
  · exact .pure fun | .inl other, .inl hother => hstates other hother
  · exact .pure fun | .inr other, .inr hother => hfinish other hother
  · exact rejects_throw _ _

/-- Two containers with the same closing byte are compared element by element. -/
theorem container_restricts {states : σ → τ → Prop} {related : α → β → Prop} {close : Char}
    {element : σ → Parser σ} {narrowElement : τ → Parser τ} {finish : σ → α}
    {narrowFinish : τ → β} {init : σ} {narrowInit : τ}
    (helement : ∀ state other, states state other →
      Restricts states (element state) (narrowElement other))
    (hlost : ∀ state, (∀ other, ¬ states state other) → Rejects states (element state))
    (hfinish : ∀ state other, states state other → related (finish state) (narrowFinish other))
    (hunfinished : ∀ state, (∀ other, ¬ states state other) →
      ∀ other, ¬ related (finish state) other)
    (hinit : states init narrowInit) :
    Restricts related (container close element finish init)
      (container close narrowElement narrowFinish narrowInit) := by
  refine .bind_same fun _ ↦ .bind_same fun _ ↦ .bind_same fun closed ↦ ?_
  split_ifs
  · exact .bind_same fun _ ↦ .pure (hfinish _ _ hinit)
  · refine .loop (fun state other hstates ↦ ?_) (fun state hnone ↦ ?_) hinit
    · refine (helement state other hstates).bind (fun next narrowNext hnext ↦ ?_)
        fun next hnext ↦ ?_
      · exact .bind_same fun _ ↦ separator_restricts hnext (hfinish _ _ hnext)
      · exact .bind (fun _ ↦ separator_rejects hnext (hunfinished _ hnext)) _
    · refine (hlost state hnone).bind_lost fun next hnext ↦ ?_
      exact .bind (fun _ ↦ separator_rejects hnext (hunfinished _ hnext)) _

end Rules

/-! ### Skipping -/

theorem skipMember_restricts (limits : Limits) {value : Parser Node} {skip : Parser Unit}
    (hvalue : Restricts (fun _ _ ↦ True) value skip) (fields : Fields) :
    Restricts (fun _ _ ↦ True) (readMember limits value fields) (skipMember limits skip ()) :=
  .bind_same fun _ ↦ .bind_same fun _ ↦
    hvalue.map (fun _ _ _ ↦ trivial) fun _ hnone ↦ absurd trivial (hnone ())

theorem skipElement_restricts {value : Parser Node} {skip : Parser Unit}
    (hvalue : Restricts (fun _ _ ↦ True) value skip) (items : List Node) :
    Restricts (fun _ _ ↦ True) (readElement value items) skip :=
  hvalue.map (fun _ _ _ ↦ trivial) fun _ hnone ↦ absurd trivial (hnone ())

/-- `skip_value` accepts exactly the values. -/
theorem skipValue_restricts (limits : Limits) (levels : ℕ) :
    Restricts (fun _ _ ↦ True) (readValue limits levels) (skipValue limits levels) := by
  induction levels with
  | zero => exact dispatch_restricts limits (fun _ _ _ ↦ trivial) (.throw _ _ _) (.throw _ _ _)
  | succ levels ih =>
      refine dispatch_restricts limits (fun _ _ _ ↦ trivial) ?_ ?_
      · exact container_restricts (fun fields _ _ ↦ skipMember_restricts limits ih fields)
          (fun _ hnone ↦ absurd trivial (hnone ())) (fun _ _ _ ↦ trivial)
          (fun _ hnone ↦ absurd trivial (hnone ())) trivial
      · exact container_restricts (fun items _ _ ↦ skipElement_restricts ih items)
          (fun _ hnone ↦ absurd trivial (hnone ())) (fun _ _ _ ↦ trivial)
          (fun _ hnone ↦ absurd trivial (hnone ())) trivial

/-! ### Building -/

theorem mem_sortedKeys {fields : Fields} {key : String} :
    key ∈ sortedKeys fields ↔ key ∈ fields.map Prod.fst :=
  List.mem_insertionSort _

theorem sortedKeys_concat (fields : Fields) (key : String) (value : Node) :
    sortedKeys (fields ++ [(key, value)]) =
      (sortedKeys fields).orderedInsert (· ≤ ·) key := by
  have hperm : (sortedKeys (fields ++ [(key, value)])).Perm
      ((sortedKeys fields).orderedInsert (· ≤ ·) key) := by
    refine (List.perm_insertionSort _ _).trans (.trans ?_ (List.perm_orderedInsert _ _ _).symm)
    rw [List.map_append]
    exact List.perm_append_comm.trans (.cons _ (List.perm_insertionSort _ _).symm)
  exact hperm.eq_of_pairwise' (List.pairwise_insertionSort _ _)
    ((List.pairwise_insertionSort _ _).orderedInsert key _)

theorem strictMembers_concat {limits : Limits} {fields : Fields} {key : String} {value : Node} :
    StrictMembers limits (fields ++ [(key, value)]) ↔
      StrictMembers limits fields ∧
        (∀ inner ∈ value.inspected limits.maxArrayInspect, StrictObject limits inner) ∧
        key ∉ sortedKeys fields ∧ fields.length + 1 ≤ limits.maxFieldsPerObject := by
  have hinner : (∀ inner ∈ inspectedFields limits.maxArrayInspect (fields ++ [(key, value)]),
      StrictObject limits inner) ↔
        (∀ inner ∈ inspectedFields limits.maxArrayInspect fields, StrictObject limits inner) ∧
          ∀ inner ∈ value.inspected limits.maxArrayInspect, StrictObject limits inner := by
    simp only [inspectedFields_eq, List.flatMap_append, List.mem_append, or_imp, forall_and,
      List.flatMap_cons, List.flatMap_nil, List.append_nil]
  have houter : StrictObject limits (fields ++ [(key, value)]) ↔
      StrictObject limits fields ∧ key ∉ fields.map Prod.fst ∧
        fields.length + 1 ≤ limits.maxFieldsPerObject := by
    unfold StrictObject
    rw [List.map_append, List.nodup_append_comm, List.length_append]
    simp only [List.map_cons, List.map_nil, List.singleton_append, List.nodup_cons,
      List.length_singleton]
    constructor
    · rintro ⟨⟨hkey, hnodup⟩, hlength⟩
      exact ⟨⟨hnodup, by omega⟩, hkey, hlength⟩
    · rintro ⟨⟨hnodup, -⟩, hkey, hlength⟩
      exact ⟨⟨hkey, hnodup⟩, hlength⟩
  unfold StrictMembers
  rw [mem_sortedKeys, hinner, houter]
  tauto

theorem cutFields_concat (cap : ℕ) (fields : Fields) (key : String) (value : Node) :
    cutFields cap (fields ++ [(key, value)]) = cutFields cap fields ++ [(key, value.cut cap)] := by
  simp [cutFields_eq]

/-- One more element is taken exactly if there is room for it. -/
theorem take_concat (cap : ℕ) (items : List Node) (value : Node) :
    (items ++ [value]).take cap =
      items.take cap ++ if items.length < cap then [value] else [] := by
  rw [List.take_append]
  split_ifs with hroom
  · rw [List.take_of_length_le (l := [value]) (by simp; omega)]
  · rw [Nat.sub_eq_zero_of_le (not_lt.mp hroom), List.take_zero]

theorem strictItems_concat {limits : Limits} {items : List Node} {value : Node} :
    StrictItems limits (items ++ [value]) ↔
      StrictItems limits items ∧ (items.length < limits.maxArrayInspect →
        ∀ inner ∈ value.inspected limits.maxArrayInspect, StrictObject limits inner) := by
  unfold StrictItems
  simp only [inspectedItems_eq, take_concat, List.flatMap_append, List.mem_append, or_imp,
    forall_and]
  split_ifs with hroom <;> simp [hroom]

theorem cutItems_concat (cap : ℕ) (items : List Node) (value : Node) :
    cutItems cap cap (items ++ [value]) =
      cutItems cap cap items ++ if items.length < cap then [value.cut cap] else [] := by
  simp only [cutItems_eq, take_concat, List.map_append]
  split_ifs <;> rfl

theorem parseMember_restricts {limits : Limits} {value narrow : Parser Node}
    (hvalue : Restricts (Cut limits) value narrow) {fields : Fields}
    {state : Fields × List String} (hstate : CutMembers limits fields state) :
    Restricts (CutMembers limits) (readMember limits value fields)
      (parseMember limits narrow state) := by
  obtain ⟨hstrict, rfl⟩ := hstate
  refine .bind_same fun key ↦ ?_
  by_cases hseen : key ∈ sortedKeys fields
  · rw [require_bind_of_not (not_not.mpr hseen)]
    refine .throw_of_rejects (.bind (fun _ ↦ .bind (fun value ↦ .pure ?_) _) _) _
    rintro state ⟨hnext, -⟩
    exact (strictMembers_concat.mp hnext).2.2.1 hseen
  · rw [require_bind_of hseen]
    refine .bind_same fun _ ↦ hvalue.bind ?_ ?_
    · rintro value node ⟨hinner, rfl⟩
      have hsize : (cutFields limits.maxArrayInspect fields).length = fields.length := by
        simp [cutFields_eq]
      by_cases hlength : fields.length + 1 ≤ limits.maxFieldsPerObject
      · rw [require_bind_of (by rwa [hsize]), ← sortedKeys_concat, ← cutFields_concat]
        exact .pure ⟨strictMembers_concat.mpr ⟨hstrict, hinner, hseen, hlength⟩, rfl⟩
      · rw [require_bind_of_not (by rwa [hsize])]
        refine .throw_of_rejects (.pure ?_) _
        rintro state ⟨hnext, -⟩
        exact hlength (strictMembers_concat.mp hnext).2.2.2
    · intro value hnone
      refine .pure ?_
      rintro state ⟨hnext, -⟩
      exact hnone _ ⟨(strictMembers_concat.mp hnext).2.1, rfl⟩

theorem readMember_rejects {limits : Limits} (value : Parser Node) {fields : Fields}
    (hnone : ∀ state, ¬ CutMembers limits fields state) :
    Rejects (CutMembers limits) (readMember limits value fields) := by
  refine .bind (fun key ↦ .bind (fun _ ↦ .bind (fun value ↦ .pure ?_) _) _) _
  rintro state ⟨hnext, -⟩
  exact hnone _ ⟨(strictMembers_concat.mp hnext).1, rfl⟩

theorem skipWs_bind_dispatch {α : Type} (limits : Limits) (leaf : Node → α)
    (object array : Parser α) :
    (skipWs >>= fun _ ↦ dispatch limits leaf object array) =
      dispatch limits leaf object array :=
  skipWhile_bind_skipWhile isWs _

theorem skipWs_bind_parseValue (limits : Limits) (levels : ℕ) :
    (skipWs >>= fun _ ↦ parseValue limits levels) = parseValue limits levels := by
  cases levels <;> exact skipWs_bind_dispatch ..

theorem skipWs_bind_skipValue (limits : Limits) (levels : ℕ) :
    (skipWs >>= fun _ ↦ skipValue limits levels) = skipValue limits levels := by
  cases levels <;> exact skipWs_bind_dispatch ..

/-- White space in front of an element is skipped by the element itself. -/
theorem parseElement_eq (limits : Limits) (levels : ℕ) (state : ArrayState) :
    parseElement limits (parseValue limits levels) (skipValue limits levels) state =
      if state.index < limits.maxArrayInspect then do
        let value ← parseValue limits levels
        return { state with items := state.items ++ [value], index := state.index + 1 }
      else do
        skipValue limits levels
        return { state with truncated := true, index := state.index + 1 } := by
  unfold parseElement
  split_ifs
  · rw [← bind_assoc, skipWs_bind_parseValue]
  · rw [← bind_assoc, skipWs_bind_skipValue]

theorem parseElement_restricts {limits : Limits} {levels : ℕ}
    (hvalue : Restricts (Cut limits) (readValue limits levels) (parseValue limits levels))
    {items : List Node} {state : ArrayState} (hstate : CutElements limits items state) :
    Restricts (CutElements limits) (readElement (readValue limits levels) items)
      (parseElement limits (parseValue limits levels) (skipValue limits levels) state) := by
  obtain ⟨hstrict, rfl⟩ := hstate
  rw [parseElement_eq]
  unfold readElement
  by_cases hroom : items.length < limits.maxArrayInspect
  · rw [if_pos hroom]
    refine hvalue.bind ?_ ?_
    · rintro value node ⟨hinner, rfl⟩
      refine .pure ⟨strictItems_concat.mpr ⟨hstrict, fun _ ↦ hinner⟩, ?_⟩
      rw [cutItems_concat, if_pos hroom]
      simp
      omega
    · intro value hnone
      refine .pure ?_
      rintro state ⟨hnext, -⟩
      exact hnone _ ⟨(strictItems_concat.mp hnext).2 hroom, rfl⟩
  · rw [if_neg hroom]
    refine (skipValue_restricts limits levels).bind ?_ fun _ hnone ↦ absurd trivial (hnone ())
    intro value _ _
    refine .pure ⟨strictItems_concat.mpr ⟨hstrict, fun hlt ↦ absurd hlt hroom⟩, ?_⟩
    rw [cutItems_concat, if_neg hroom, List.append_nil]
    simp [Nat.lt_succ_of_le (not_lt.mp hroom)]

theorem readElement_rejects {limits : Limits} (value : Parser Node) {items : List Node}
    (hnone : ∀ state, ¬ CutElements limits items state) :
    Rejects (CutElements limits) (readElement value items) := by
  refine .bind (fun value ↦ .pure ?_) _
  rintro state ⟨hnext, -⟩
  exact hnone _ ⟨(strictItems_concat.mp hnext).1, rfl⟩

/-- The parser accepts the values whose inspected objects are strict, and cuts them. -/
theorem parseValue_restricts (limits : Limits) (levels : ℕ) :
    Restricts (Cut limits) (readValue limits levels) (parseValue limits levels) := by
  have hleaf (node : Node) (hobjects : node.inspected limits.maxArrayInspect = [])
      (hcut : node.cut limits.maxArrayInspect = node) : Cut limits (id node) (id node) := by
    refine ⟨fun fields hfields ↦ ?_, hcut.symm⟩
    rw [id, hobjects] at hfields
    cases hfields
  induction levels with
  | zero => exact dispatch_restricts limits hleaf (.throw _ _ _) (.throw _ _ _)
  | succ levels ih =>
      refine dispatch_restricts limits hleaf ?_ ?_
      · refine container_restricts (fun _ _ ↦ parseMember_restricts ih)
          (fun _ ↦ readMember_rejects _) ?_ ?_ ?_
        · rintro fields state ⟨hstrict, rfl⟩
          exact ⟨List.forall_mem_cons.mpr ⟨hstrict.2, hstrict.1⟩, rfl⟩
        · rintro fields hnone node ⟨hstrict, -⟩
          obtain ⟨houter, hinner⟩ := List.forall_mem_cons.mp hstrict
          exact hnone _ ⟨⟨hinner, houter⟩, rfl⟩
        · exact ⟨⟨by simp [inspectedFields], by simp [StrictObject]⟩, rfl⟩
      · refine container_restricts (fun _ _ ↦ parseElement_restricts ih)
          (fun _ ↦ readElement_rejects _) ?_ ?_ ?_
        · rintro items state ⟨hstrict, rfl⟩
          exact ⟨hstrict, by simp [Node.cut]⟩
        · rintro items hnone node ⟨hstrict, -⟩
          exact hnone _ ⟨hstrict, rfl⟩
        · exact ⟨by simp [StrictItems, inspectedItems], by simp [cutItems]⟩

/-! ## Documents -/

theorem document_eq_ok {α : Type} {limits : Limits} {value : Parser α} {bytes : List UInt8}
    {result : α} :
    document limits value bytes = .ok result ↔
      bytes.length ≤ limits.maxBytes ∧
        ∃ left, value bytes = .ok (result, left) ∧ left.dropWhile isWs = [] := by
  unfold document
  split_ifs with hlength
  · simp [hlength]
  · have hrun' (parser : Parser α) : parser.run' bytes = .ok result ↔
        ∃ left, parser bytes = .ok (result, left) := by
      change (Prod.fst <$> parser bytes) = _ ↔ _
      obtain err | ⟨value, left⟩ := parser bytes <;> simp [Functor.map, Except.map]
    rw [hrun']
    constructor
    · rintro ⟨_, hrun⟩
      obtain ⟨_, left, hvalue, hrun⟩ := bind_eq_ok.mp hrun
      obtain ⟨_, _, ⟨⟩, hrun⟩ := bind_eq_ok.mp hrun
      obtain ⟨_, _, ⟨⟩, hrun⟩ := bind_eq_ok.mp hrun
      obtain ⟨_, _, hend, hrun⟩ := bind_eq_ok.mp hrun
      obtain ⟨hleft, -⟩ := require_eq_ok.mp hend
      obtain ⟨rfl, -⟩ := pure_eq_ok.mp hrun
      exact ⟨not_lt.mp hlength, left, hvalue, hleft⟩
    · rintro ⟨-, left, hvalue, hleft⟩
      refine ⟨[], bind_eq_ok.mpr ⟨result, left, hvalue, ?_⟩⟩
      change (require (left.dropWhile isWs = []) QuarantineReason.parseError >>= fun _ ↦
        pure result) (left.dropWhile isWs) = _
      rw [require_bind_of hleft, hleft]
      rfl

/-- The parser returns the trees whose inspected objects are strict, cut at the cap. -/
theorem parseBounded_eq_ok {limits : Limits} {bytes : List UInt8} {node : Node} :
    parseBounded bytes limits = .ok node ↔
      ∃ doc, readDocument limits bytes = .ok doc ∧ Cut limits doc node := by
  have hvalue := parseValue_restricts limits limits.maxDepth
  constructor
  · intro hparse
    obtain ⟨hlength, left, hrun, hleft⟩ := document_eq_ok.mp hparse
    obtain ⟨doc, hread, hcut⟩ := hvalue.sound _ _ _ hrun
    exact ⟨doc, document_eq_ok.mpr ⟨hlength, left, hread, hleft⟩, hcut⟩
  · rintro ⟨doc, hread, hcut⟩
    obtain ⟨hlength, left, hrun, hleft⟩ := document_eq_ok.mp hread
    obtain ⟨other, hparse, hother⟩ := hvalue.complete _ _ _ hrun ⟨node, hcut⟩
    obtain rfl : other = node := hother.2.trans hcut.2.symm
    exact document_eq_ok.mpr ⟨hlength, left, hparse, hleft⟩

theorem parseBounded_isOk {limits : Limits} {bytes : List UInt8} :
    (parseBounded bytes limits).isOk ↔
      ∃ doc, readDocument limits bytes = .ok doc ∧
        ∀ fields ∈ doc.inspected limits.maxArrayInspect, StrictObject limits fields := by
  rw [Except.isOk_iff]
  constructor
  · rintro ⟨node, hparse⟩
    obtain ⟨doc, hread, hcut⟩ := parseBounded_eq_ok.mp hparse
    exact ⟨doc, hread, hcut.1⟩
  · rintro ⟨doc, hread, hstrict⟩
    exact ⟨_, parseBounded_eq_ok.mpr ⟨doc, hread, hstrict, rfl⟩⟩

def Limits.withCap (limits : Limits) (cap : ℕ) : Limits := { limits with maxArrayInspect := cap }

theorem readValue_withCap (limits : Limits) (cap levels : ℕ) :
    readValue (limits.withCap cap) levels = readValue limits levels := by
  induction levels with
  | zero => rfl
  | succ levels ih =>
      unfold readValue
      rw [ih]
      rfl

/-- Reading the tree does not depend on the cap. -/
theorem readDocument_withCap (limits : Limits) (cap : ℕ) (bytes : List UInt8) :
    readDocument (limits.withCap cap) bytes = readDocument limits bytes := by
  unfold readDocument
  rw [readValue_withCap]
  rfl

/-- What is accepted with the configured cap is accepted with a cap that no array reaches. -/
def CapIndependent (limits : Limits) (bytes : List UInt8) : Prop :=
  ∀ wide, (∀ doc, readDocument limits bytes = .ok doc →
      ∀ items ∈ doc.arrays, items.length < wide) →
    (parseBounded bytes limits).isOk → (parseBounded bytes (limits.withCap wide)).isOk

/-- An accepted document has only strict objects, at any position. -/
def StrictIfAccepted (limits : Limits) (bytes : List UInt8) : Prop :=
  (parseBounded bytes limits).isOk →
    ∀ doc, readDocument limits bytes = .ok doc → ∀ fields ∈ doc.objects, StrictObject limits fields

/-- The objects inside the elements past the cap are strict, unless an inspected object is not. -/
def SkippedStrict (limits : Limits) (bytes : List UInt8) : Prop :=
  ∀ doc, readDocument limits bytes = .ok doc →
    (∀ fields ∈ doc.inspected limits.maxArrayInspect, StrictObject limits fields) →
      ∀ fields ∈ doc.skipped limits.maxArrayInspect, StrictObject limits fields

theorem strictIfAccepted_iff (limits : Limits) (bytes : List UInt8) :
    StrictIfAccepted limits bytes ↔ SkippedStrict limits bytes := by
  constructor
  · intro hstrict doc hread hinspected fields hfields
    refine hstrict (parseBounded_isOk.mpr ⟨doc, hread, hinspected⟩) doc hread fields ?_
    exact (doc.mem_objects_iff _ fields).mpr (.inr hfields)
  · intro hskipped haccepted doc hread fields hfields
    obtain ⟨other, hother, hinspected⟩ := parseBounded_isOk.mp haccepted
    obtain rfl : other = doc := Except.ok.inj (hother.symm.trans hread)
    obtain hfields | hfields := (other.mem_objects_iff limits.maxArrayInspect fields).mp hfields
    · exact hinspected fields hfields
    · exact hskipped other hread hinspected fields hfields

theorem capIndependent_iff_strictIfAccepted (limits : Limits) (bytes : List UInt8) :
    CapIndependent limits bytes ↔ StrictIfAccepted limits bytes := by
  constructor
  · intro hcap haccepted doc hread
    -- a cap above every array of the document inspects all of its objects
    obtain ⟨wide, hwide⟩ : ∃ wide, ∀ items ∈ doc.arrays, items.length < wide :=
      ⟨(doc.arrays.map List.length).sum + 1, fun items hitems ↦
        Nat.lt_succ_of_le
          (List.single_le_sum (fun _ _ ↦ Nat.zero_le _) _ (List.mem_map_of_mem hitems))⟩
    have hsame (other : Node) (hother : readDocument limits bytes = .ok other) : other = doc :=
      Except.ok.inj (hother.symm.trans hread)
    have hbig := hcap wide (fun other hother ↦ hsame other hother ▸ hwide) haccepted
    obtain ⟨other, hother, hstrict⟩ := parseBounded_isOk.mp hbig
    rw [readDocument_withCap] at hother
    obtain rfl := hsame other hother
    rw [← Node.inspected_of_wide fun items hitems ↦ (hwide items hitems).le]
    exact hstrict
  · intro hstrict wide hwide haccepted
    obtain ⟨doc, hread, -⟩ := parseBounded_isOk.mp haccepted
    refine parseBounded_isOk.mpr ⟨doc, ?_, ?_⟩
    · rw [readDocument_withCap]
      exact hread
    · have hinspected := Node.inspected_of_wide fun items hitems ↦ (hwide doc hread items hitems).le
      change ∀ fields ∈ doc.inspected wide, StrictObject limits fields
      rw [hinspected]
      exact hstrict haccepted doc hread

/-- Strictness is independent of the cap exactly where the skipped objects are strict. -/
theorem parse_strict_iff (limits : Limits) (bytes : List UInt8) :
    (CapIndependent limits bytes ↔ SkippedStrict limits bytes) ∧
      (StrictIfAccepted limits bytes ↔ SkippedStrict limits bytes) :=
  ⟨(capIndependent_iff_strictIfAccepted limits bytes).trans (strictIfAccepted_iff limits bytes),
    strictIfAccepted_iff limits bytes⟩

/-- With a cap of one element, an object with a repeated key behind that element is accepted; with a
cap of three it is not. -/
theorem skipped_duplicate_accepted :
    ¬ CapIndependent ((default : Limits).withCap 1) (ascii "[1,\x7b\"a\":1,\"a\":2\x7d]") ∧
      ¬ StrictIfAccepted ((default : Limits).withCap 1) (ascii "[1,\x7b\"a\":1,\"a\":2\x7d]") := by
  rw [← capIndependent_iff_strictIfAccepted, and_self]
  intro hcap
  have haccepted : (parseBounded (ascii "[1,\x7b\"a\":1,\"a\":2\x7d]")
      ((default : Limits).withCap 1)).isOk := by
    decide +kernel
  have harrays : (readDocument ((default : Limits).withCap 1)
      (ascii "[1,\x7b\"a\":1,\"a\":2\x7d]")).map (·.arrays.all (·.length < 3)) = .ok true := by
    decide +kernel
  refine absurd (hcap 3 (fun doc hread ↦ ?_) haccepted) (by decide +kernel)
  rw [hread] at harrays
  simpa using Except.ok.inj harrays

end Deblob.Fingerprint
