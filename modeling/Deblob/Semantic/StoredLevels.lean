import Deblob.Fingerprint.ValueGrammar
import Deblob.Redis.StoredText
import Deblob.Semantic.PathGrammars
import Mathlib.Algebra.Order.BigOperators.Group.List

/-!
# How deep stored texts are nested

The candidate record and the published JSON of a profile are nested alike: two levels for every key
on the way to a position, one for every element, and two for the field at its end.
-/

namespace Deblob.Semantic

open Core Lib Fingerprint Deblob.Monoid
open Redis (CandidateRecord StoredText storedField storedChildren storedChildren_eq storedElem
  storedNesting storedNesting_le storedTypes storedBuckets storedProfile storedRecord)

def stepLevels : Step → ℕ
  | .key _ => 2
  | .elem => 1

def pathLevels (path : List Step) : ℕ := (path.map stepLevels).sum

/-- Every position of the nodes is at most `bound` levels deep. -/
def WithinLevels (bound : ℕ) (nodes : List Node) : Prop :=
  ∀ path, nodesAt path nodes ≠ [] → pathLevels path ≤ bound

theorem pathLevels_cons (step : Step) (path : List Step) :
    pathLevels (step :: path) = pathLevels path + stepLevels step := by
  rw [pathLevels, List.map_cons, List.sum_cons, pathLevels, Nat.add_comm]

theorem pathLevels_le (path : List Step) : pathLevels path ≤ path.length * 2 := by
  have hsum := List.sum_le_card_nsmul (path.map stepLevels) 2 <| by
    rw [List.forall_mem_map]
    intro step _
    cases step
    · exact le_rfl
    · exact one_le_two
  rwa [List.length_map] at hsum

theorem nodesAt_append (path : List Step) (left right : List Node) :
    nodesAt path (left ++ right) = nodesAt path left ++ nodesAt path right := by
  induction path generalizing left right with
  | nil => rfl
  | cons step path ih =>
      cases step with
      | key name => rw [nodesAt, valuesAt_append, ih, nodesAt, nodesAt]
      | elem => rw [nodesAt, itemsOf_append, ih, nodesAt, nodesAt]

/-- A position of several documents is a position of one of them. -/
theorem withinLevels_iff {bound : ℕ} {nodes : List Node} :
    WithinLevels bound nodes ↔ ∀ node ∈ nodes, WithinLevels bound [node] := by
  induction nodes with
  | nil => simp [WithinLevels, nodesAt_nil]
  | cons node nodes ih =>
      rw [List.forall_mem_cons, ← ih, WithinLevels, WithinLevels, WithinLevels, ← forall_and]
      apply forall_congr'
      intro path
      rw [← List.singleton_append, nodesAt_append, Ne, List.append_eq_nil_iff, not_and_or, or_imp]

/-! ## One field -/

/-- A field is two levels, two more around each child and one more around an element. -/
theorem nesting_storedField_add_le {field : FieldNode} {spent bound : ℕ} :
    (storedField field).nesting + spent ≤ bound ↔ 2 + spent ≤ bound ∧
      (∀ child ∈ field.children, (storedField child.2).nesting + (2 + spent) ≤ bound) ∧
      ∀ elem ∈ field.arrayElem, (storedField elem).nesting + (1 + spent) ≤ bound := by
  have hnesting : (storedField field).nesting =
      max (storedElem field.arrayElem).nesting
        (max (storedNesting (storedChildren field.children) + 1) 1) + 1 := by
    cases field
    simp [storedField, StoredText.nesting, storedNesting, storedTypes, storedBuckets]
  have helem : (storedElem field.arrayElem).nesting + (1 + spent) ≤ bound ∧ 1 + spent ≤ bound ↔
      1 + spent ≤ bound ∧
        ∀ elem ∈ field.arrayElem, (storedField elem).nesting + (1 + spent) ≤ bound := by
    cases field.arrayElem with
    | none => simp [storedElem, StoredText.nesting]
    | some elem => simp [storedElem, and_comm]
  have hchildren (hbound : 2 + spent ≤ bound) :
      storedNesting (storedChildren field.children) + (2 + spent) ≤ bound ↔
        ∀ child ∈ field.children, (storedField child.2).nesting + (2 + spent) ≤ bound := by
    rw [← Nat.le_sub_iff_add_le hbound, storedNesting_le, storedChildren_eq, List.forall_mem_map]
    simp only [Nat.le_sub_iff_add_le hbound]
  rw [hnesting]
  constructor
  · intro hle
    have hbound : 2 + spent ≤ bound := by omega
    exact ⟨hbound, (hchildren hbound).mp (by omega), (helem.mp ⟨by omega, by omega⟩).2⟩
  · rintro ⟨hbound, hchild, hpart⟩
    have hsub := (hchildren hbound).mpr hchild
    have hsome := (helem.mpr ⟨by omega, hpart⟩).1
    omega

/-- The view of a field is nested in the same way. -/
theorem nesting_viewText_le_iff {view : View} {bound : ℕ} :
    (viewText view).nesting ≤ bound ↔ 2 ≤ bound ∧
      (∀ child ∈ view.children, (viewText child.2).nesting + 2 ≤ bound) ∧
      ∀ elem ∈ view.elem, (viewText elem).nesting + 1 ≤ bound := by
  constructor
  · rcases view with ⟨optional, types, children, elem⟩
    intro hle
    rw [viewText, JsonText.nesting] at hle
    have hmembers := memberNesting_le.mp (Nat.le_sub_one_of_lt hle)
    refine ⟨?_, fun child hchild ↦ ?_, fun elemView helem ↦ ?_⟩
    · have htypes := hmembers ("types", .array (types.map .string)) (by simp)
      simp only [JsonText.nesting] at htypes
      omega
    · have hempty : ¬children.isEmpty := fun hempty ↦ by
        rw [List.isEmpty_iff.mp hempty] at hchild
        cases hchild
      have htexts := hmembers ("children", .object (childTexts children)) (by simp [hempty])
      have hmem : (child.1, viewText child.2) ∈ childTexts children := by
        rw [childTexts_eq]
        exact List.mem_map.mpr ⟨child, hchild, rfl⟩
      have htext := memberNesting_le.mp le_rfl _ hmem
      simp only [JsonText.nesting] at htexts
      dsimp only at htext
      omega
    · change elem = some elemView at helem
      subst helem
      have htext := hmembers ("elem", viewText elemView) (by simp [elemTexts])
      dsimp only at htext
      omega
  · rintro ⟨hbound, hchildren, helem⟩
    exact nesting_viewText_succ_le hbound hchildren helem

/-- What is published of a field is nested like what is stored of it. -/
theorem nesting_viewText_eq {field : FieldNode} (hsorted : field.Sorted) (denom : ℕ) :
    (viewText (field.view denom)).nesting = (storedField field).nesting := by
  induction hsorted generalizing denom with
  | @intro field keys _ _ ihChildren ihElem =>
      apply eq_of_forall_ge_iff
      intro bound
      have hstored := @nesting_storedField_add_le field 0 bound
      rw [Nat.add_zero] at hstored
      rw [hstored, nesting_viewText_le_iff, view_eq, List.forall_mem_map]
      refine and_congr_right' (and_congr ?_ ?_)
      · refine forall₂_congr fun child hchild ↦ ?_
        rw [ihChildren child.1 child.2 (keys.mem_iff.mp hchild)]
      · cases helem : field.arrayElem with
        | none => simp
        | some elem => simp [ihElem elem helem]

mutual

/-- A stored field is nested two levels deeper than its positions. -/
theorem nesting_storedField_le : {field : FieldNode} → {nodes : List Node} →
    Summarizes field nodes → nodes ≠ [] → (spent bound : ℕ) →
      ((storedField field).nesting + spent ≤ bound ↔
        ∀ path, nodesAt path nodes ≠ [] → pathLevels path + 2 + spent ≤ bound)
  | field, nodes, .intro _ _ sorted children elem, nonempty, spent, bound => by
    have hchildren (key : String) :=
      nesting_storedPart_le (children key) (2 + spent) bound
    have helem := nesting_storedPart_le elem (1 + spent) bound
    rw [nesting_storedField_add_le]
    constructor
    · rintro ⟨hbound, hchild, hpart⟩ path hpath
      cases path with
      | nil => simpa [pathLevels] using hbound
      | cons step path =>
          rw [pathLevels_cons]
          cases step with
          | key name =>
              have hle := (hchildren name).mp (fun child hlookup ↦
                hchild (name, child) (sorted.mem_iff.mpr hlookup)) path hpath
              simp only [stepLevels]
              omega
          | elem =>
              have hle := helem.mp hpart path hpath
              simp only [stepLevels]
              omega
    · intro hpaths
      refine ⟨by simpa [pathLevels] using hpaths [] nonempty, fun child hchild ↦ ?_, ?_⟩
      · refine (hchildren child.1).mpr (fun path hpath ↦ ?_) child.2 (sorted.mem_iff.mp hchild)
        have hle := hpaths (.key child.1 :: path) hpath
        rw [pathLevels_cons] at hle
        simp only [stepLevels] at hle
        omega
      · refine helem.mpr fun path hpath ↦ ?_
        have hle := hpaths (.elem :: path) hpath
        rw [pathLevels_cons] at hle
        simp only [stepLevels] at hle
        omega

theorem nesting_storedPart_le : {part : Option FieldNode} → {nodes : List Node} →
    SummarizesPart part nodes → (spent bound : ℕ) →
      ((∀ field ∈ part, (storedField field).nesting + spent ≤ bound) ↔
        ∀ path, nodesAt path nodes ≠ [] → pathLevels path + 2 + spent ≤ bound)
  | _, _, .none, _, _ => by simp [nodesAt_nil]
  | _, _, .some nonempty summary, spent, bound => by
    rw [← nesting_storedField_le summary nonempty spent bound]
    simp

end

theorem nesting_storedRecord (record : CandidateRecord Profile) :
    (storedRecord record).nesting = (storedField record.profile.root).nesting + 2 := by
  have hsource : (record.source.elim StoredText.null .string).nesting = 0 := by
    cases record.source <;> rfl
  simp [storedRecord, storedProfile, StoredText.nesting, storedNesting, hsource]

/-- A record of the profile of some documents is four levels deeper than they are. -/
theorem nesting_storedRecord_le {record : CandidateRecord Profile} {docs : List Node}
    {bound : ℕ} (hsummary : Summarizes record.profile.root docs) (hdocs : docs ≠ []) :
    (storedRecord record).nesting ≤ bound + 4 ↔ ∀ doc ∈ docs, WithinLevels bound [doc] := by
  rw [nesting_storedRecord, nesting_storedField_le hsummary hdocs, ← withinLevels_iff]
  apply forall₂_congr
  intro path _
  omega

/-! ## Bounds from the depth of a document -/

/-- A position is not deeper than the documents. -/
theorem length_le_of_nodesAt {path : List Step} {nodes : List Node} {bound : ℕ}
    (hdepth : ∀ node ∈ nodes, nodeDepth node ≤ bound) (hpath : nodesAt path nodes ≠ []) :
    path.length ≤ bound := by
  induction path generalizing nodes bound with
  | nil => exact Nat.zero_le bound
  | cons step path ih =>
      have hbelow {below : List Node} (hlt : ∀ node ∈ below, nodeDepth node < bound)
          (hpath : nodesAt path below ≠ []) : path.length + 1 ≤ bound := by
        have hnonempty : below ≠ [] := fun hempty ↦ hpath (by rw [hempty, nodesAt_nil])
        rcases List.exists_mem_of_ne_nil below hnonempty with ⟨node, hnode⟩
        have hpositive := hlt node hnode
        have hle := ih (fun node hnode ↦ Nat.le_sub_one_of_lt (hlt node hnode)) hpath
        omega
      cases step with
      | key name =>
          refine hbelow (fun value hvalue ↦ ?_) hpath
          rcases List.mem_filterMap.mp hvalue with ⟨node, hnode, hat⟩
          exact (nodeDepth_lt_of_valueAt hat).trans_le (hdepth node hnode)
      | elem =>
          refine hbelow (fun item hitem ↦ ?_) hpath
          rcases List.mem_flatMap.mp hitem with ⟨node, hnode, hmem⟩
          exact (nodeDepth_lt_of_mem_items hmem).trans_le (hdepth node hnode)

theorem withinLevels_of_depth {node : Node} {bound : ℕ} (hdepth : nodeDepth node ≤ bound) :
    WithinLevels (2 * bound) [node] := by
  intro path hpath
  have hlength := length_le_of_nodesAt (by simpa using hdepth) hpath
  have hlevels := pathLevels_le path
  omega

theorem nodeDepth_cut_le {limits : Limits} {levels : ℕ} {tree : Json.Tree}
    (hsized : Sized limits levels tree) (cap : ℕ) :
    nodeDepth ((Node.ofTree tree).cut cap) ≤ levels := by
  induction hsized with
  | null | bool | number | string => exact Nat.zero_le _
  | array _ ih =>
      rw [Node.ofTree, Node.cut, nodeDepth, Nat.succ_le_succ_iff, itemsDepth_le, cutItems_eq,
        nodesOfItems_eq, List.forall_mem_map]
      intro node hnode
      rcases List.mem_map.mp (List.mem_of_mem_take hnode) with ⟨item, hitem, rfl⟩
      exact ih item hitem
  | object _ _ ih =>
      rw [Node.ofTree, Node.cut, nodeDepth, Nat.succ_le_succ_iff, fieldsDepth_le, cutFields_eq,
        nodesOfMembers_eq, List.forall_mem_map, List.forall_mem_map]
      exact ih

/-- The parser accepts no document that is deeper than its limit. -/
theorem nodeDepth_le_of_parseBounded {limits : Limits} {bytes : List UInt8} {node : Node}
    (haccepted : parseBounded bytes limits = .ok node) : nodeDepth node ≤ limits.maxDepth := by
  rcases parseBounded_eq_ok.mp haccepted with ⟨doc, hread, -, rfl⟩
  rcases readDocument_eq_ok.mp hread with ⟨-, tree, -, hsized, rfl⟩
  exact nodeDepth_cut_le hsized _

end Deblob.Semantic
