import Deblob.Retrieval.Flattening
import Deblob.Slm.Prompt

/-!
# Which fields a view lists

The nodes of a field tree in the order of the tree are the children of a node, each before the nodes
below it, and then its element. The walk lists the first 64 of the nodes it can see. It never looks
for the element of an element, and it says that something was left out where the limit of fields or
of depth is met. So a nested array is dropped without notice, while an element one step past the
depth limit is listed with one.
-/

namespace Deblob.Slm

open Deblob.Monoid (FieldNode Profile)
open Retrieval (Step Position Unnested)

/-! ## The nodes of a tree -/

mutual

/-- The nodes below a node, with their positions, in the order of the tree. -/
def nodesBelow (position : Position) : FieldNode → List (Position × FieldNode)
  | ⟨_, _, _, children, arrayElem, _, _, _, _, _⟩ =>
    nodesOfChildren position children ++ nodesOfElem position arrayElem

def nodesOfChildren (position : Position) : List (String × FieldNode) → List (Position × FieldNode)
  | [] => []
  | (name, child) :: children =>
    (position ++ [.field name], child) :: nodesBelow (position ++ [.field name]) child ++
      nodesOfChildren position children

def nodesOfElem (position : Position) : Option FieldNode → List (Position × FieldNode)
  | none => []
  | some elem => (position ++ [.elem], elem) :: nodesBelow (position ++ [.elem]) elem

end

/-- What stands at a position below a node. -/
def NodeAt : FieldNode → Position → FieldNode → Prop
  | node, [], found => node = found
  | node, .field name :: rest, found =>
    ∃ child, (name, child) ∈ node.children ∧ NodeAt child rest found
  | node, .elem :: rest, found => ∃ elem, node.arrayElem = some elem ∧ NodeAt elem rest found

def HasFields (node : FieldNode) : Prop := node.children ≠ [] ∨ node.arrayElem.isSome

theorem nodesBelow_eq (position : Position) (node : FieldNode) :
    nodesBelow position node =
      nodesOfChildren position node.children ++ nodesOfElem position node.arrayElem := by
  cases node
  rw [nodesBelow]

theorem NodeAt.append {node found : FieldNode} {first rest : Position} :
    NodeAt node (first ++ rest) found ↔
      ∃ between, NodeAt node first between ∧ NodeAt between rest found := by
  induction first generalizing node with
  | nil => simp [NodeAt]
  | cons step first ih =>
      cases step with
      | field name =>
          simp only [List.cons_append, NodeAt, ih]
          exact ⟨fun ⟨child, hchild, between, hfirst, hrest⟩ ↦
              ⟨between, ⟨child, hchild, hfirst⟩, hrest⟩,
            fun ⟨between, ⟨child, hchild, hfirst⟩, hrest⟩ ↦
              ⟨child, hchild, between, hfirst, hrest⟩⟩
      | elem =>
          simp only [List.cons_append, NodeAt, ih]
          exact ⟨fun ⟨child, hchild, between, hfirst, hrest⟩ ↦
              ⟨between, ⟨child, hchild, hfirst⟩, hrest⟩,
            fun ⟨between, ⟨child, hchild, hfirst⟩, hrest⟩ ↦
              ⟨child, hchild, between, hfirst, hrest⟩⟩

/-- A node with something below it has fields. -/
theorem NodeAt.hasFields {node found : FieldNode} {position : Position}
    (hfound : NodeAt node position found) (hbelow : position ≠ []) : HasFields node := by
  match position with
  | [] => exact absurd rfl hbelow
  | .field name :: rest =>
    obtain ⟨child, hchild, -⟩ := hfound
    exact .inl (List.ne_nil_of_mem hchild)
  | .elem :: rest =>
    obtain ⟨elem, helem, -⟩ := hfound
    exact .inr (by rw [helem]; rfl)

theorem HasFields.exists_step {node : FieldNode} (hfields : HasFields node) :
    ∃ step child, NodeAt node [step] child := by
  obtain hchildren | helem := hfields
  · obtain ⟨⟨name, child⟩, hchild⟩ := List.exists_mem_of_ne_nil _ hchildren
    exact ⟨.field name, child, child, hchild, rfl⟩
  · obtain ⟨elem, helem⟩ := Option.isSome_iff_exists.mp helem
    exact ⟨.elem, elem, elem, helem, rfl⟩

mutual

theorem mem_nodesBelow {position found : Position} {node : FieldNode} : (tree : FieldNode) →
    ((found, node) ∈ nodesBelow position tree ↔
      ∃ rest, rest ≠ [] ∧ found = position ++ rest ∧ NodeAt tree rest node)
  | ⟨present, explicitNull, types, children, arrayElem, arrayEmptySeen, arrayPartialSeen, intOnly,
      negZeroSeen, numericBuckets⟩ => by
    rw [nodesBelow, List.mem_append, mem_nodesOfChildren children, mem_nodesOfElem arrayElem]
    constructor
    · rintro (⟨name, child, rest, hchild, rfl, hat⟩ | ⟨elem, rest, rfl, rfl, hat⟩)
      · exact ⟨.field name :: rest, List.cons_ne_nil _ _, rfl, child, hchild, hat⟩
      · exact ⟨.elem :: rest, List.cons_ne_nil _ _, rfl, elem, rfl, hat⟩
    · rintro ⟨rest, hrest, rfl, hat⟩
      match rest with
      | [] => exact absurd rfl hrest
      | .field name :: rest =>
        obtain ⟨child, hchild, hat⟩ := hat
        exact .inl ⟨name, child, rest, hchild, rfl, hat⟩
      | .elem :: rest =>
        obtain ⟨elem, helem, hat⟩ := hat
        exact .inr ⟨elem, rest, helem, rfl, hat⟩

theorem mem_nodesOfChildren {position found : Position} {node : FieldNode} :
    (children : List (String × FieldNode)) →
    ((found, node) ∈ nodesOfChildren position children ↔
      ∃ name child rest, (name, child) ∈ children ∧ found = position ++ .field name :: rest ∧
        NodeAt child rest node)
  | [] => by simp [nodesOfChildren]
  | (name, child) :: children => by
    rw [nodesOfChildren, List.cons_append, List.mem_cons, List.mem_append,
      mem_nodesBelow child, mem_nodesOfChildren children]
    constructor
    · rintro (heq | ⟨rest, -, rfl, hat⟩ | ⟨other, inner, rest, hmem, rfl, hat⟩)
      · obtain ⟨rfl, rfl⟩ := Prod.mk.inj heq
        exact ⟨name, node, [], List.mem_cons_self, rfl, rfl⟩
      · exact ⟨name, child, rest, List.mem_cons_self, by simp, hat⟩
      · exact ⟨other, inner, rest, .tail _ hmem, rfl, hat⟩
    · rintro ⟨other, inner, rest, hmem, rfl, hat⟩
      obtain heq | hmem := List.mem_cons.mp hmem
      · obtain ⟨rfl, rfl⟩ := Prod.mk.inj heq
        match rest with
        | [] => exact .inl (by rw [show inner = node from hat])
        | step :: rest =>
          exact .inr (.inl ⟨step :: rest, List.cons_ne_nil _ _, by simp, hat⟩)
      · exact .inr (.inr ⟨other, inner, rest, hmem, rfl, hat⟩)

theorem mem_nodesOfElem {position found : Position} {node : FieldNode} :
    (arrayElem : Option FieldNode) →
    ((found, node) ∈ nodesOfElem position arrayElem ↔
      ∃ elem rest, arrayElem = some elem ∧ found = position ++ .elem :: rest ∧
        NodeAt elem rest node)
  | none => by simp [nodesOfElem]
  | some elem => by
    rw [nodesOfElem, List.mem_cons, mem_nodesBelow elem]
    constructor
    · rintro (heq | ⟨rest, -, rfl, hat⟩)
      · obtain ⟨rfl, rfl⟩ := Prod.mk.inj heq
        exact ⟨node, [], rfl, rfl, rfl⟩
      · exact ⟨elem, rest, rfl, by simp, hat⟩
    · rintro ⟨below, rest, helem, rfl, hat⟩
      obtain rfl := Option.some.inj helem
      match rest with
      | [] => exact .inl (by rw [show elem = node from hat])
      | step :: rest => exact .inr ⟨step :: rest, List.cons_ne_nil _ _, by simp, hat⟩

end

/-- The nodes of a profile but the root. -/
def profileNodes (profile : Profile) : List (Position × FieldNode) := nodesBelow [] profile.root

theorem mem_profileNodes {profile : Profile} {position : Position} {node : FieldNode} :
    (position, node) ∈ profileNodes profile ↔
      position ≠ [] ∧ NodeAt profile.root position node := by
  unfold profileNodes
  rw [mem_nodesBelow]
  constructor
  · rintro ⟨rest, hrest, rfl, hat⟩
    exact ⟨hrest, hat⟩
  · rintro ⟨hposition, hat⟩
    exact ⟨position, hposition, rfl, hat⟩

/-! ## What the walk can see -/

instance : DecidablePred Unnested := fun position ↦
  inferInstanceAs (Decidable (position.IsChain _))

/-- The walk reaches fields up to the depth limit and their elements, but no element of one. -/
def Visible (position : Position) : Prop :=
  Unnested position ∧
    position.length ≤ maxPathDepth + if position.getLast? = some .elem then 1 else 0

instance : DecidablePred Visible := fun _ ↦ instDecidableAnd

theorem unnested_append_field {position : Position} {name : String} :
    Unnested (position ++ [.field name]) ↔ Unnested position := by
  simp [Unnested, List.isChain_append]

theorem unnested_append_elem {position : Position} :
    Unnested (position ++ [.elem]) ↔ Unnested position ∧ position.getLast? ≠ some .elem := by
  simp only [Unnested, List.isChain_append, List.isChain_singleton, List.head?_cons, true_and,
    Option.mem_def, Option.some.injEq, forall_eq', and_true]
  refine and_congr_right fun _ ↦ ⟨fun hlast hsome ↦ hlast _ hsome rfl, ?_⟩
  rintro hlast step hstep rfl
  exact hlast hstep

theorem visible_append_field {position : Position} {name : String} :
    Visible (position ++ [.field name]) ↔ Unnested position ∧ position.length < maxPathDepth := by
  unfold Visible
  rw [unnested_append_field, List.getLast?_concat, if_neg (by simp), List.length_append,
    List.length_singleton]
  rfl

theorem visible_append_elem {position : Position} :
    Visible (position ++ [.elem]) ↔
      Unnested position ∧ position.getLast? ≠ some .elem ∧ position.length ≤ maxPathDepth := by
  unfold Visible
  rw [unnested_append_elem, List.getLast?_concat, if_pos rfl, List.length_append,
    List.length_singleton, and_assoc, Nat.add_le_add_iff_right]

/-- What leads to a visible position is visible. -/
theorem Visible.of_append {position rest : Position} (hvisible : Visible (position ++ rest)) :
    Visible position := by
  obtain ⟨hunnested, hlength⟩ := hvisible
  by_cases hrest : rest = []
  · rw [hrest, List.append_nil] at hunnested hlength
    exact ⟨hunnested, hlength⟩
  · refine ⟨(List.isChain_append.mp hunnested).1, ?_⟩
    have hpos := List.length_pos_iff.mpr hrest
    rw [List.length_append] at hlength
    split_ifs at hlength ⊢ <;> omega

def visibleIn (entries : List (Position × FieldNode)) : List (Position × FieldNode) :=
  entries.filter fun entry ↦ Visible entry.1

theorem visibleIn_append (left right : List (Position × FieldNode)) :
    visibleIn (left ++ right) = visibleIn left ++ visibleIn right :=
  List.filter_append ..

/-- Below a field at the depth limit the walk sees no children. -/
theorem visibleIn_nodesOfChildren_of_deep {position : Position}
    (hdeep : maxPathDepth ≤ position.length) (children : List (String × FieldNode)) :
    visibleIn (nodesOfChildren position children) = [] := by
  refine List.filter_eq_nil_iff.mpr ?_
  rintro ⟨found, node⟩ hmem hvisible
  obtain ⟨name, child, rest, -, rfl, -⟩ := (mem_nodesOfChildren children).mp hmem
  rw [List.append_cons, decide_eq_true_eq] at hvisible
  have hfield := (visible_append_field.mp hvisible.of_append).2
  omega

/-- The element of an element is not seen, nor what is below it. -/
theorem visibleIn_nodesOfElem_of_nested {position : Position}
    (hnested : position.getLast? = some .elem) (arrayElem : Option FieldNode) :
    visibleIn (nodesOfElem position arrayElem) = [] := by
  refine List.filter_eq_nil_iff.mpr ?_
  rintro ⟨found, node⟩ hmem hvisible
  obtain ⟨elem, rest, -, rfl, -⟩ := (mem_nodesOfElem arrayElem).mp hmem
  rw [List.append_cons, decide_eq_true_eq] at hvisible
  exact (visible_append_elem.mp hvisible.of_append).2.1 hnested

/-! ## What the walk lists -/

/-- Something below the entry is past the depth limit. -/
def LeavesOut (entry : Position × FieldNode) : Prop :=
  maxPathDepth ≤ entry.1.length ∧ HasFields entry.2

instance (entry : Position × FieldNode) : Decidable (LeavesOut entry) :=
  decidable_of_iff (maxPathDepth ≤ entry.1.length ∧
      (entry.2.children.isEmpty = false ∨ entry.2.arrayElem.isSome)) <| by
    simp [LeavesOut, HasFields]

def stepName : Step → String
  | .field name => name
  | .elem => "[]"

section

variable (lowercase : String → String)

def redactedPath (position : Position) : List RedactedName :=
  position.map fun step ↦ redactFieldName lowercase (stepName step)

/-- The statistics of a node at a position below the root. -/
def entryStat (entry : Position × FieldNode) : RedactedFieldStat :=
  fieldStat entry.2 (redactedPath lowercase entry.1) (entry.1.length - 1)

def ViewWalk.note (walk : ViewWalk) (leavesOut : Bool) : ViewWalk :=
  { walk with truncated := walk.truncated || leavesOut }

/-- A walk that goes on with these entries, as far as there is room. -/
def ViewWalk.extend (walk : ViewWalk) (entries : List (Position × FieldNode)) : ViewWalk where
  fields := (walk.fields ++ entries.map (entryStat lowercase)).take maxFields
  truncated := walk.truncated || entries.any (fun entry ↦ LeavesOut entry) ||
    decide (maxFields < walk.fields.length + entries.length)

variable {lowercase}

theorem ViewWalk.note_bounded {walk : ViewWalk} {leavesOut : Bool} :
    (walk.note leavesOut).Bounded ↔ walk.Bounded := Iff.rfl

@[simp]
theorem ViewWalk.note_false (walk : ViewWalk) : walk.note false = walk := by
  simp [note]

theorem ViewWalk.extend_bounded (lowercase : String → String) (walk : ViewWalk)
    (entries : List (Position × FieldNode)) : (walk.extend lowercase entries).Bounded := by
  unfold Bounded extend
  rw [List.length_take]
  exact min_le_left _ _

theorem ViewWalk.extend_nil {walk : ViewWalk} (hwalk : walk.Bounded) :
    walk.extend lowercase [] = walk := by
  have hroom : ¬ maxFields < walk.fields.length := not_lt.mpr hwalk
  simp [extend, List.take_of_length_le hwalk, hroom]

theorem take_take_append {α : Type} (count : ℕ) (left right : List α) :
    (left.take count ++ right).take count = (left ++ right).take count := by
  rw [List.take_append, List.take_append, List.take_take, min_self, List.length_take]
  congr 2
  omega

theorem ViewWalk.extend_append (walk : ViewWalk) (left right : List (Position × FieldNode)) :
    walk.extend lowercase (left ++ right) =
      (walk.extend lowercase left).extend lowercase right := by
  have hlength : maxFields < walk.fields.length + (left ++ right).length ↔
      maxFields < walk.fields.length + left.length ∨
      maxFields < min maxFields (walk.fields.length + left.length) + right.length := by
    rw [List.length_append]
    omega
  simp only [extend, List.map_append, List.any_append, List.length_take, List.length_append,
    List.length_map]
  congr 1
  · rw [take_take_append, List.append_assoc]
  · rw [List.length_append] at hlength
    rw [Bool.eq_iff_iff]
    simp only [Bool.or_eq_true, decide_eq_true_eq]
    rw [hlength]
    tauto

/-- Nothing is added behind entries that did not all fit. -/
theorem ViewWalk.extend_append_of_full {walk : ViewWalk} {left : List (Position × FieldNode)}
    (hfull : maxFields < walk.fields.length + left.length)
    (right : List (Position × FieldNode)) :
    walk.extend lowercase (left ++ right) = walk.extend lowercase left := by
  have hfields : maxFields ≤ (walk.fields ++ left.map (entryStat lowercase)).length := by
    rw [List.length_append, List.length_map]
    exact hfull.le
  have hboth : maxFields < walk.fields.length + (left ++ right).length := by
    rw [List.length_append]
    omega
  unfold extend
  rw [List.map_append, ← List.append_assoc, List.take_append_of_le_length hfields,
    decide_eq_true hfull, decide_eq_true hboth, Bool.or_true, Bool.or_true]

theorem ViewWalk.extend_of_full {walk : ViewWalk} (hwalk : walk.Bounded)
    (hfull : maxFields ≤ walk.fields.length) {entries : List (Position × FieldNode)}
    (hentries : entries ≠ []) : walk.extend lowercase entries = walk.cut := by
  have hlength : walk.fields.length = maxFields := le_antisymm hwalk hfull
  have hover : maxFields < walk.fields.length + entries.length := by
    have hpos := List.length_pos_iff.mpr hentries
    omega
  unfold extend cut
  rw [List.take_append_of_le_length hfull, ← hlength, List.take_length, hlength]
  simp [← hlength, List.length_pos_iff.mpr hentries]

/-- The first entry is pushed, and what it leaves out is noted. -/
theorem ViewWalk.extend_cons (walk : ViewWalk) (entry : Position × FieldNode)
    (entries : List (Position × FieldNode)) :
    walk.extend lowercase (entry :: entries) =
      ((walk.push entry.2 (redactedPath lowercase entry.1) (entry.1.length - 1)).note
        (decide (LeavesOut entry))).extend lowercase entries := by
  unfold extend note push entryStat
  simp only [List.map_cons, List.append_cons _ _ (entries.map _), List.any_cons, List.length_cons,
    List.length_append, List.length_nil]
  congr 1
  rw [Bool.eq_iff_iff]
  simp only [Bool.or_eq_true, decide_eq_true_eq, Nat.add_assoc, Nat.add_comm 1]
  tauto

/-! ## The walk -/

theorem redactedPath_append_field (position : Position) (name : String) :
    redactedPath lowercase (position ++ [.field name]) =
      redactedPath lowercase position ++ [redactFieldName lowercase name] := by
  simp [redactedPath, stepName]

theorem redactedPath_append_elem (position : Position) :
    redactedPath lowercase (position ++ [.elem]) =
      redactedPath lowercase position ++ [redactFieldName lowercase "[]"] := by
  simp [redactedPath, stepName]

/-- The fields of a node that is not at the depth limit are listed, those of another are noted. -/
theorem ViewWalk.descend_eq {walk : ViewWalk} (hwalk : walk.Bounded) (position : Position)
    (node : FieldNode) {continueWith : ViewWalk → ViewWalk}
    (hcontinue : position.length < maxPathDepth →
      continueWith walk =
        walk.extend lowercase (visibleIn (nodesOfChildren position node.children))) :
    walk.descend position.length (!node.children.isEmpty || node.arrayElem.isSome) continueWith =
      (walk.note (decide (LeavesOut (position, node)))).extend lowercase
        (visibleIn (nodesOfChildren position node.children)) := by
  unfold descend
  split_ifs with hdeep hfields
  · rw [visibleIn_nodesOfChildren_of_deep hdeep, extend_nil (note_bounded.mpr hwalk)]
    have hleaves : LeavesOut (position, node) := ⟨hdeep, by simpa [HasFields] using hfields⟩
    simp [note, cut, hleaves]
  · rw [visibleIn_nodesOfChildren_of_deep hdeep, extend_nil (note_bounded.mpr hwalk)]
    have hleaves : ¬ LeavesOut (position, node) := fun hleaves ↦
      hfields (by simpa [HasFields] using hleaves.2)
    simp [hleaves]
  · have hleaves : ¬ LeavesOut (position, node) := fun hleaves ↦ hdeep hleaves.1
    rw [hcontinue (not_le.mp hdeep), decide_eq_false hleaves, note_false]

/-- An element that can be seen is listed with what is below it, or cut. -/
theorem ViewWalk.elem_eq {walk : ViewWalk} (hwalk : walk.Bounded) {position : Position}
    {elem : FieldNode} (hvisible : Visible (position ++ [.elem]))
    (hfields : ∀ {walk : ViewWalk}, walk.Bounded →
      walkFields lowercase (redactedPath lowercase (position ++ [.elem]))
          (position ++ [Step.elem]).length walk elem =
        (walk.note (decide (LeavesOut (position ++ [.elem], elem)))).extend lowercase
          (visibleIn (nodesOfChildren (position ++ [.elem]) elem.children))) :
    (if maxFields ≤ walk.fields.length then walk.cut
      else walkFields lowercase (redactedPath lowercase (position ++ [.elem])) (position.length + 1)
        (walk.push elem (redactedPath lowercase (position ++ [.elem])) position.length) elem) =
      walk.extend lowercase (visibleIn (nodesOfElem position (some elem))) := by
  have hlisted : visibleIn (nodesOfElem position (some elem)) =
      (position ++ [.elem], elem) ::
        visibleIn (nodesOfChildren (position ++ [.elem]) elem.children) := by
    rw [nodesOfElem, visibleIn, List.filter_cons_of_pos (by simpa using hvisible), nodesBelow_eq]
    change _ :: visibleIn (_ ++ _) = _
    rw [visibleIn_append, visibleIn_nodesOfElem_of_nested (by simp), List.append_nil]
  have hlength : (position ++ [Step.elem]).length = position.length + 1 := by simp
  rw [hlisted]
  split_ifs with hfull
  · exact (extend_of_full hwalk hfull (List.cons_ne_nil _ _)).symm
  · have hwalked := hfields (.push hfull elem (redactedPath lowercase (position ++ [.elem]))
      position.length)
    rw [hlength] at hwalked
    rw [hwalked, extend_cons]
    simp only [hlength, Nat.add_sub_cancel]

mutual

theorem walkFields_eq (position : Position) (hposition : Unnested position) {walk : ViewWalk}
    (hwalk : walk.Bounded) : (node : FieldNode) →
    walkFields lowercase (redactedPath lowercase position) position.length walk node =
      (walk.note (decide (LeavesOut (position, node)))).extend lowercase
        (visibleIn (nodesOfChildren position node.children))
  | ⟨present, explicitNull, types, children, arrayElem, arrayEmptySeen, arrayPartialSeen, intOnly,
      negZeroSeen, numericBuckets⟩ => by
    rw [walkFields]
    exact ViewWalk.descend_eq hwalk position ⟨present, explicitNull, types, children, arrayElem,
      arrayEmptySeen, arrayPartialSeen, intOnly, negZeroSeen, numericBuckets⟩
      fun hdepth ↦ walkChildren_eq position hposition hdepth hwalk children

theorem walkChildren_eq (position : Position) (hposition : Unnested position)
    (hdepth : position.length < maxPathDepth) {walk : ViewWalk} (hwalk : walk.Bounded) :
    (children : List (String × FieldNode)) →
    walkChildren lowercase (redactedPath lowercase position) position.length walk children =
      walk.extend lowercase (visibleIn (nodesOfChildren position children))
  | [] => (ViewWalk.extend_nil hwalk).symm
  | (name, child) :: children => by
    have hvisible : Visible (position ++ [.field name]) :=
      visible_append_field.mpr ⟨hposition, hdepth⟩
    have hlisted : visibleIn (nodesOfChildren position ((name, child) :: children)) =
        (position ++ [.field name], child) ::
          visibleIn (nodesBelow (position ++ [.field name]) child) ++
          visibleIn (nodesOfChildren position children) := by
      rw [nodesOfChildren, visibleIn_append, visibleIn, List.filter_cons_of_pos (by simpa using
        hvisible)]
      rfl
    rw [walkChildren, hlisted]
    split_ifs with hfull
    · rw [ViewWalk.extend_of_full hwalk hfull (by simp)]
    · obtain ⟨hwalked, hstop⟩ := walkChild_eq (position ++ [.field name]) hvisible (by simp)
        position.length (by simp) (.push hfull child
          (redactedPath lowercase (position ++ [.field name])) position.length) child
      have hpushed : (walkChild lowercase (redactedPath lowercase (position ++ [.field name]))
          position.length (walk.push child (redactedPath lowercase (position ++ [.field name]))
            position.length) child).1 = walk.extend lowercase ((position ++ [.field name], child) ::
              visibleIn (nodesBelow (position ++ [.field name]) child)) := by
        rw [hwalked, ViewWalk.extend_cons]
        simp
      rw [redactedPath_append_field] at hpushed hstop
      dsimp only
      split
      · rename_i stopped heq
        rw [heq] at hpushed hstop
        rw [ViewWalk.extend_append_of_full, ← hpushed]
        have hover := hstop rfl
        simp only [ViewWalk.push, List.length_append, List.length_singleton] at hover
        simp only [List.length_cons]
        omega
      · rename_i continued heq
        rw [heq] at hpushed
        rw [ViewWalk.extend_append, ← hpushed]
        refine walkChildren_eq position hposition hdepth ?_ children
        rw [show continued = _ from hpushed]
        exact ViewWalk.extend_bounded lowercase _ _

theorem walkChild_eq (position : Position) (hposition : Visible position)
    (hfield : position.getLast? ≠ some .elem) (depth : ℕ) (hdepth : position.length = depth + 1)
    {walk : ViewWalk} (hwalk : walk.Bounded) : (child : FieldNode) →
    (walkChild lowercase (redactedPath lowercase position) depth walk child).1 =
        (walk.note (decide (LeavesOut (position, child)))).extend lowercase
          (visibleIn (nodesBelow position child)) ∧
      ((walkChild lowercase (redactedPath lowercase position) depth walk child).2 = true →
        maxFields < walk.fields.length + (visibleIn (nodesBelow position child)).length)
  | ⟨present, explicitNull, types, children, arrayElem, arrayEmptySeen, arrayPartialSeen, intOnly,
      negZeroSeen, numericBuckets⟩ => by
    have hbelow : walk.descend (depth + 1) (!children.isEmpty || arrayElem.isSome)
        (fun walk ↦ walkChildren lowercase (redactedPath lowercase position) (depth + 1) walk
          children) =
        (walk.note (decide (LeavesOut (position, ⟨present, explicitNull, types, children,
          arrayElem, arrayEmptySeen, arrayPartialSeen, intOnly, negZeroSeen,
          numericBuckets⟩)))).extend lowercase (visibleIn (nodesOfChildren position children)) := by
      rw [← hdepth]
      exact ViewWalk.descend_eq hwalk position ⟨present, explicitNull, types, children, arrayElem,
        arrayEmptySeen, arrayPartialSeen, intOnly, negZeroSeen, numericBuckets⟩
        fun hshallow ↦ walkChildren_eq position hposition.1 hshallow hwalk children
    obtain ⟨hwalked, hstop⟩ := walkElem_eq position hposition hfield depth hdepth
      (ViewWalk.extend_bounded lowercase _ _) arrayElem
    rw [walkChild, nodesBelow, visibleIn_append, hbelow]
    refine ⟨by rw [hwalked, ViewWalk.extend_append], fun hstopped ↦ ?_⟩
    have hover := hstop hstopped
    have hlength : ((walk.note (decide (LeavesOut (position, ⟨present, explicitNull, types,
        children, arrayElem, arrayEmptySeen, arrayPartialSeen, intOnly, negZeroSeen,
        numericBuckets⟩)))).extend lowercase
          (visibleIn (nodesOfChildren position children))).fields.length ≤
        walk.fields.length + (visibleIn (nodesOfChildren position children)).length := by
      simp [ViewWalk.extend, ViewWalk.note]
    rw [List.length_append]
    omega

theorem walkElem_eq (position : Position) (hposition : Visible position)
    (hfield : position.getLast? ≠ some .elem) (depth : ℕ) (hdepth : position.length = depth + 1)
    {walk : ViewWalk} (hwalk : walk.Bounded) : (arrayElem : Option FieldNode) →
    (walkElem lowercase (redactedPath lowercase position) depth walk arrayElem).1 =
        walk.extend lowercase (visibleIn (nodesOfElem position arrayElem)) ∧
      ((walkElem lowercase (redactedPath lowercase position) depth walk arrayElem).2 = true →
        maxFields < walk.fields.length + (visibleIn (nodesOfElem position arrayElem)).length)
  | none => ⟨(ViewWalk.extend_nil hwalk).symm, fun hstop ↦ nomatch hstop⟩
  | some elem => by
    have hvisible : Visible (position ++ [.elem]) :=
      visible_append_elem.mpr ⟨hposition.1, hfield, by
        have hlength := hposition.2
        rwa [if_neg hfield] at hlength⟩
    have hwalked := ViewWalk.elem_eq hwalk hvisible fun hwalk ↦
      walkFields_eq (position ++ [.elem]) hvisible.1 hwalk elem
    rw [hdepth, redactedPath_append_elem] at hwalked
    rw [walkElem, ← hwalked]
    split_ifs with hfull
    · refine ⟨rfl, fun _ ↦ ?_⟩
      have hsome : (position ++ [.elem], elem) ∈ visibleIn (nodesOfElem position (some elem)) :=
        List.mem_filter.mpr ⟨List.mem_cons_self, by simpa using hvisible⟩
      have hpos := List.length_pos_of_mem hsome
      omega
    · exact ⟨rfl, fun hstop ↦ nomatch hstop⟩

end

end

/-! ## Honest views -/

/-- The nodes a view has room for. -/
def listedNodes (profile : Profile) : List (Position × FieldNode) :=
  (visibleIn (profileNodes profile)).take maxFields

theorem mem_visibleIn {entries : List (Position × FieldNode)} {entry : Position × FieldNode} :
    entry ∈ visibleIn entries ↔ entry ∈ entries ∧ Visible entry.1 := by
  rw [visibleIn, List.mem_filter, decide_eq_true_eq]

/-- The nodes below the root are those below its children and those below its element. -/
theorem fromProfile_walk (lowercase : String → String) (profile : Profile) :
    CandidateProfileView.fromProfile lowercase profile =
      { observationCount := profile.count
        fields := (ViewWalk.extend lowercase ⟨[], false⟩
          (visibleIn (profileNodes profile))).fields
        truncated := (ViewWalk.extend lowercase ⟨[], false⟩
          (visibleIn (profileNodes profile))).truncated } := by
  have hempty : ViewWalk.Bounded ⟨[], false⟩ := Nat.zero_le _
  have hroot : walkFields lowercase [] 0 ⟨[], false⟩ profile.root =
      ViewWalk.extend lowercase ⟨[], false⟩
        (visibleIn (nodesOfChildren [] profile.root.children)) := by
    have hleaves : ¬ LeavesOut ([], profile.root) := fun hleaves ↦
      absurd hleaves.1 (Nat.not_succ_le_zero _)
    calc walkFields lowercase [] 0 ⟨[], false⟩ profile.root =
          (ViewWalk.note ⟨[], false⟩ (decide (LeavesOut ([], profile.root)))).extend lowercase
            (visibleIn (nodesOfChildren [] profile.root.children)) :=
          walkFields_eq [] List.isChain_nil hempty profile.root
      _ = _ := by rw [decide_eq_false hleaves, ViewWalk.note_false]
  have hbounded := ViewWalk.extend_bounded lowercase ⟨[], false⟩
    (visibleIn (nodesOfChildren [] profile.root.children))
  unfold CandidateProfileView.fromProfile profileNodes
  rw [hroot, nodesBelow_eq, visibleIn_append, ViewWalk.extend_append]
  cases profile.root.arrayElem with
  | none =>
      rw [nodesOfElem, show visibleIn [] = [] from rfl, ViewWalk.extend_nil hbounded]
  | some elem =>
      have hvisible : Visible ([] ++ [Step.elem]) :=
        visible_append_elem.mpr ⟨List.isChain_nil, by simp, Nat.zero_le _⟩
      rw [← ViewWalk.elem_eq hbounded hvisible fun hwalk ↦
        walkFields_eq ([] ++ [.elem]) hvisible.1 hwalk elem]
      dsimp only
      split_ifs with hroom hfull
      · omega
      · rfl
      · rfl
      · omega

/-- A view lists the first visible nodes, and reports that there are more of them or that one
leaves out what is below it. -/
theorem fields_fromProfile (lowercase : String → String) (profile : Profile) :
    (CandidateProfileView.fromProfile lowercase profile).fields =
      (listedNodes profile).map (entryStat lowercase) := by
  rw [fromProfile_walk]
  simp [ViewWalk.extend, listedNodes, List.map_take]

theorem truncated_fromProfile (lowercase : String → String) (profile : Profile) :
    (CandidateProfileView.fromProfile lowercase profile).truncated = false ↔
      (visibleIn (profileNodes profile)).length ≤ maxFields ∧
      ∀ entry ∈ visibleIn (profileNodes profile), ¬ LeavesOut entry := by
  rw [fromProfile_walk]
  simp [ViewWalk.extend, and_comm]

/-- A view keeps to its limits, and says that it is cut exactly if it does not list every node. -/
structure HonestView (lowercase : String → String) (profile : Profile) : Prop where
  room : (CandidateProfileView.fromProfile lowercase profile).fields.length ≤ maxFields
  depth : ∀ field ∈ (CandidateProfileView.fromProfile lowercase profile).fields,
    field.depth ≤ maxPathDepth
  truncated : (CandidateProfileView.fromProfile lowercase profile).truncated = false ↔
    (CandidateProfileView.fromProfile lowercase profile).fields =
      (profileNodes profile).map (entryStat lowercase)

/-- A tree with an element right below an element is cut for another reason too, and a tree that is
listed to its end does not reach past the depth limit. -/
structure CutIsNoticed (profile : Profile) : Prop where
  nested : (∃ entry ∈ profileNodes profile, ¬ Unnested entry.1) →
    maxFields < (visibleIn (profileNodes profile)).length ∨
    ∃ entry ∈ visibleIn (profileNodes profile), LeavesOut entry
  deepest : (∀ entry ∈ profileNodes profile, Visible entry.1) →
    (profileNodes profile).length ≤ maxFields →
    ∀ entry ∈ profileNodes profile, entry.1.length ≤ maxPathDepth

/-- Every node is listed exactly if all of them are visible and there is room for them. -/
theorem lists_all_iff (lowercase : String → String) (profile : Profile) :
    (CandidateProfileView.fromProfile lowercase profile).fields =
        (profileNodes profile).map (entryStat lowercase) ↔
      (∀ entry ∈ profileNodes profile, Visible entry.1) ∧
      (profileNodes profile).length ≤ maxFields := by
  rw [fields_fromProfile, listedNodes]
  constructor
  · intro hlisted
    have hlength := congrArg List.length hlisted
    rw [List.length_map, List.length_map, List.length_take] at hlength
    have hvisible : (visibleIn (profileNodes profile)).length ≤ (profileNodes profile).length :=
      List.length_filter_le _ _
    have hall : (visibleIn (profileNodes profile)).length = (profileNodes profile).length := by
      omega
    refine ⟨fun entry hentry ↦ ?_, by omega⟩
    exact of_decide_eq_true (List.length_filter_eq_length_iff.mp hall entry hentry)
  · rintro ⟨hvisible, hroom⟩
    have hall : visibleIn (profileNodes profile) = profileNodes profile :=
      List.filter_eq_self.mpr fun entry hentry ↦ decide_eq_true (hvisible entry hentry)
    rw [hall, List.take_of_length_le hroom]

/-- Above a node past the depth limit there is one at the limit, which leaves it out. -/
theorem exists_leavesOut_of_deep {profile : Profile} {position : Position} {node : FieldNode}
    (hnode : (position, node) ∈ profileNodes profile) (hunnested : Unnested position)
    (hdeep : maxPathDepth < position.length) :
    ∃ entry ∈ visibleIn (profileNodes profile), LeavesOut entry := by
  obtain ⟨-, hat⟩ := mem_profileNodes.mp hnode
  rw [← List.take_append_drop maxPathDepth position] at hat hunnested
  obtain ⟨between, habove, hbelow⟩ := NodeAt.append.mp hat
  have hlength : (position.take maxPathDepth).length = maxPathDepth := by
    rw [List.length_take]
    omega
  have hrest : position.drop maxPathDepth ≠ [] := by
    rw [ne_eq, List.drop_eq_nil_iff]
    omega
  have hvisible : Visible (position.take maxPathDepth) :=
    ⟨(List.isChain_append.mp hunnested).1, by omega⟩
  refine ⟨(position.take maxPathDepth, between), mem_visibleIn.mpr ⟨mem_profileNodes.mpr
    ⟨?_, habove⟩, hvisible⟩, hlength.ge, hbelow.hasFields hrest⟩
  rw [← List.length_pos_iff, hlength]
  decide

/-- A view is honest exactly if no tree is cut without notice, nor listed with one. -/
theorem honestView_iff (lowercase : String → String) (profile : Profile) :
    HonestView lowercase profile ↔ CutIsNoticed profile := by
  constructor
  · intro hview
    refine ⟨?_, fun hvisible hroom ↦ ?_⟩
    · rintro ⟨entry, hentry, hnested⟩
      by_contra hnone
      rw [not_or, not_lt, not_exists] at hnone
      have hall := hview.truncated.mp ((truncated_fromProfile lowercase profile).mpr
        ⟨hnone.1, fun other hother hleaves ↦ hnone.2 other ⟨hother, hleaves⟩⟩)
      exact hnested (((lists_all_iff lowercase profile).mp hall).1 entry hentry).1
    · rintro ⟨position, node⟩ hentry
      by_contra hdeep
      have hall := (lists_all_iff lowercase profile).mpr ⟨hvisible, hroom⟩
      obtain ⟨other, hother, hleaves⟩ := exists_leavesOut_of_deep hentry
        (hvisible _ hentry).1 (not_le.mp hdeep)
      exact ((truncated_fromProfile lowercase profile).mp
        (hview.truncated.mpr hall)).2 other hother hleaves
  · intro hcut
    refine ⟨length_fields_fromProfile lowercase profile, ?_, ?_⟩
    · rw [fields_fromProfile]
      intro field hfield
      obtain ⟨entry, hentry, rfl⟩ := List.mem_map.mp hfield
      have hvisible := (mem_visibleIn.mp (List.mem_of_mem_take hentry)).2.2
      change entry.1.length - 1 ≤ maxPathDepth
      split_ifs at hvisible <;> omega
    · rw [truncated_fromProfile, lists_all_iff]
      constructor
      · rintro ⟨hroom, hnone⟩
        have hunnested : ∀ entry ∈ profileNodes profile, Unnested entry.1 := by
          by_contra hnested
          push Not at hnested
          obtain hover | ⟨entry, hentry, hleaves⟩ := hcut.nested hnested
          · omega
          · exact hnone entry hentry hleaves
        have hvisible : ∀ entry ∈ profileNodes profile, Visible entry.1 := by
          rintro ⟨position, node⟩ hentry
          refine ⟨hunnested _ hentry, ?_⟩
          by_contra hdeep
          obtain ⟨other, hother, hleaves⟩ :=
            exists_leavesOut_of_deep hentry (hunnested _ hentry) (by dsimp only at hdeep; omega)
          exact hnone other hother hleaves
        refine ⟨hvisible, ?_⟩
        have hall : visibleIn (profileNodes profile) = profileNodes profile :=
          List.filter_eq_self.mpr fun entry hentry ↦ decide_eq_true (hvisible entry hentry)
        rwa [hall] at hroom
      · rintro ⟨hvisible, hroom⟩
        refine ⟨(List.length_filter_le _ _).trans hroom, ?_⟩
        rintro ⟨position, node⟩ hentry ⟨hdeep, hfields⟩
        obtain ⟨hnonempty, hat⟩ := mem_profileNodes.mp (mem_visibleIn.mp hentry).1
        obtain ⟨step, child, hchild⟩ := hfields.exists_step
        have hbelow : (position ++ [step], child) ∈ profileNodes profile :=
          mem_profileNodes.mpr ⟨by simp, NodeAt.append.mpr ⟨node, hat, hchild⟩⟩
        have hlength := hcut.deepest hvisible hroom _ hbelow
        rw [List.length_append, List.length_singleton] at hlength
        dsimp only at hdeep
        omega

/-- The profile of the document with a list of rows of one number. -/
def rowsProfile : Profile :=
  .fromNode (.object [("rows", .array [.array [.number "1"] false] false)])

/-- The cells of the rows are not listed, and nothing says so. -/
theorem rows_not_honest : ¬ HonestView id rowsProfile := by
  intro hview
  have hnone : (CandidateProfileView.fromProfile id rowsProfile).truncated = false := by
    decide +kernel
  have hlength := congrArg List.length (hview.truncated.mp hnone)
  rw [List.length_map] at hlength
  revert hlength
  decide +kernel

end Deblob.Slm
