import Deblob.Lib.JoinedCodes
import Deblob.Monoid.Laws
import Deblob.Retrieval.Policy
import Deblob.Slm.ViewNodes

/-!
# Texts of redacted paths

A path is written as the string literals of its names with a separator in between. A literal ends at
its closing quote, so neither the separator of the policy nor that of the prompt can be imitated by
a name, and two paths have one text exactly if they have the same literals. Hence the policy finds a
collision exactly if two nodes in the view look alike.
-/

namespace Deblob.Slm

open Lib
open Deblob.Monoid (FieldNode Profile)
open Retrieval (Step Position RetrievalResult InferenceDecision InferenceError
  detectRedactionCollision evaluatePolicy gateInputs wouldAccept_iff)

/-! ## Literals -/

/-- A text is a JSON string literal. -/
def IsLiteral (text : String) : Prop :=
  ∃ body, text.toList = '"' :: (body ++ ['"']) ∧ Inert body

theorem isLiteral_redactFieldName (lowercase : String → String) (name : String) :
    IsLiteral (redactFieldName lowercase name).escaped :=
  redactFieldName_escaped lowercase name

/-- The body of a literal ends at the first quote that is not escaped. -/
theorem Inert.append_quote_inj {left right rest others : List Char} (hleft : Inert left)
    (hright : Inert right) (heq : left ++ '"' :: rest = right ++ '"' :: others) :
    left = right ∧ rest = others := by
  induction hleft generalizing right with
  | nil =>
      cases hright with
      | nil => exact ⟨rfl, (List.cons.inj heq).2⟩
      | plain _ hquote _ _ => exact absurd (List.cons.inj heq).1.symm hquote
      | escape _ _ => exact absurd (List.cons.inj heq).1 (by decide)
  | plain _ hquote hbackslash _ ih =>
      cases hright with
      | nil => exact absurd (List.cons.inj heq).1 hquote
      | plain _ _ _ hinert =>
          obtain ⟨rfl, htail⟩ := List.cons.inj heq
          obtain ⟨rfl, hrest⟩ := ih hinert htail
          exact ⟨rfl, hrest⟩
      | escape _ _ => exact absurd (List.cons.inj heq).1 hbackslash
  | escape _ _ ih =>
      cases hright with
      | nil => exact absurd (List.cons.inj heq).1 (by decide)
      | plain _ _ hbackslash _ => exact absurd (List.cons.inj heq).1.symm hbackslash
      | escape _ hinert =>
          obtain ⟨rfl, htail⟩ := List.cons.inj (List.cons.inj heq).2
          obtain ⟨rfl, hrest⟩ := ih hinert htail
          exact ⟨rfl, hrest⟩

theorem literal_readsBackOn : ReadsBackOn IsLiteral String.toList := by
  intro value other hvalue hother rest left heq
  obtain ⟨body, hbody, hinert⟩ := hvalue
  obtain ⟨inner, hinner, hsafe⟩ := hother
  rw [hbody, hinner, List.cons_append, List.cons_append, List.append_assoc, List.append_assoc]
    at heq
  obtain ⟨rfl, hrest⟩ := hinert.append_quote_inj hsafe (List.cons.inj heq).2
  exact ⟨String.toList_inj.mp (hbody.trans hinner.symm), hrest⟩

/-- A literal begins with a quote. -/
theorem IsLiteral.append_ne {text : String} (htext : IsLiteral text) {close : Char}
    (hclose : close ≠ '"') (rest left : List Char) : text.toList ++ rest ≠ close :: left := by
  obtain ⟨body, hbody, -⟩ := htext
  rw [hbody]
  exact fun heq ↦ hclose (List.cons.inj heq).1.symm

/-! ## Paths -/

/-- The escaped segments of a path. -/
def escapedPath (path : List RedactedName) : List String := path.map RedactedName.escaped

/-- How a prompt writes a path. -/
def renderedPath (field : RedactedFieldStat) : String :=
  "path=[" ++ " > ".intercalate (escapedPath field.path) ++ "]"

/-- Lists of literals are told apart by their text, whatever the separator. -/
theorem intercalate_literals_inj {sep : String} (hsep : sep.toList ≠ [])
    (hbracket : ']' ∉ sep.toList.head?) {left right : List String}
    (hleft : ∀ text ∈ left, IsLiteral text) (hright : ∀ text ∈ right, IsLiteral text) :
    sep.intercalate left = sep.intercalate right ↔ left = right := by
  refine ⟨fun heq ↦ ?_, fun heq ↦ heq ▸ rfl⟩
  have htexts := congrArg String.toList heq
  rw [String.toList_intercalate, String.toList_intercalate] at htexts
  exact literal_readsBackOn.intercalate_inj hsep hbracket
    (fun _ htext rest left ↦ htext.append_ne (by decide) rest left) hleft hright htexts

theorem isLiteral_of_mem_escapedPath {lowercase : String → String} {position : Position}
    {text : String} (htext : text ∈ escapedPath (redactedPath lowercase position)) :
    IsLiteral text := by
  obtain ⟨name, hname, rfl⟩ := List.mem_map.mp htext
  obtain ⟨step, -, rfl⟩ := List.mem_map.mp hname
  exact isLiteral_redactFieldName lowercase (stepName step)

/-! ## Different nodes -/

theorem self_notMem_nodesBelow (position : Position) (tree : FieldNode) :
    position ∉ (nodesBelow position tree).map Prod.fst := by
  intro hmem
  obtain ⟨⟨_, node⟩, hnode, rfl⟩ := List.mem_map.mp hmem
  obtain ⟨rest, hrest, hposition, -⟩ := (mem_nodesBelow tree).mp hnode
  exact hrest (List.append_right_eq_self.mp hposition.symm)

mutual

/-- Every node of a sorted tree has a position of its own. -/
theorem nodup_nodesBelow (position : Position) : (tree : FieldNode) → tree.Sorted →
    ((nodesBelow position tree).map Prod.fst).Nodup
  | ⟨present, explicitNull, types, children, arrayElem, arrayEmptySeen, arrayPartialSeen, intOnly,
      negZeroSeen, numericBuckets⟩, .intro hkeys hchildren helem => by
    rw [nodesBelow, List.map_append, List.nodup_append]
    refine ⟨nodup_nodesOfChildren position children hkeys fun child hchild ↦
        hchildren child.1 child.2 (hkeys.mem_iff.mp hchild),
      nodup_nodesOfElem position arrayElem helem, ?_⟩
    intro found hfound other hother heq
    obtain ⟨⟨_, node⟩, hnode, rfl⟩ := List.mem_map.mp hfound
    obtain ⟨⟨_, inner⟩, hinner, rfl⟩ := List.mem_map.mp hother
    obtain ⟨name, child, rest, -, hposition, -⟩ := (mem_nodesOfChildren children).mp hnode
    obtain ⟨elem, below, -, hbelow, -⟩ := (mem_nodesOfElem arrayElem).mp hinner
    simp only at heq
    rw [hposition, hbelow] at heq
    exact absurd (List.cons.inj (List.append_cancel_left heq)).1 (by simp)

theorem nodup_nodesOfChildren (position : Position) : (children : List (String × FieldNode)) →
    SortedKeys children → (∀ child ∈ children, child.2.Sorted) →
    ((nodesOfChildren position children).map Prod.fst).Nodup
  | [], _, _ => List.nodup_nil
  | (name, child) :: children, hkeys, hsorted => by
    have hbelow := nodup_nodesBelow (position ++ [.field name]) child
      (hsorted _ List.mem_cons_self)
    have hrest := nodup_nodesOfChildren position children hkeys.of_cons fun other hother ↦
      hsorted other (.tail _ hother)
    rw [nodesOfChildren, List.map_append, List.map_cons, List.nodup_append, List.nodup_cons]
    refine ⟨⟨self_notMem_nodesBelow _ child, hbelow⟩, hrest, ?_⟩
    have hunder : ∀ found ∈ (position ++ [.field name]) ::
        (nodesBelow (position ++ [.field name]) child).map Prod.fst,
        ∃ rest, found = position ++ .field name :: rest := by
      intro found hfound
      obtain rfl | hfound := List.mem_cons.mp hfound
      · exact ⟨[], rfl⟩
      · obtain ⟨⟨_, node⟩, hnode, rfl⟩ := List.mem_map.mp hfound
        obtain ⟨rest, -, hposition, -⟩ := (mem_nodesBelow child).mp hnode
        exact ⟨rest, hposition.trans (List.append_assoc ..)⟩
    intro found hfound other hother heq
    obtain ⟨rest, rfl⟩ := hunder found hfound
    obtain ⟨⟨_, inner⟩, hinner, rfl⟩ := List.mem_map.mp hother
    obtain ⟨sibling, node, below, hsibling, hposition, -⟩ :=
      (mem_nodesOfChildren children).mp hinner
    simp only at heq
    rw [hposition] at heq
    have hname := Step.field.inj (List.cons.inj (List.append_cancel_left heq)).1
    exact absurd hname ((List.pairwise_cons.mp hkeys).1 _ hsibling).ne

theorem nodup_nodesOfElem (position : Position) : (arrayElem : Option FieldNode) →
    (∀ elem ∈ arrayElem, elem.Sorted) →
    ((nodesOfElem position arrayElem).map Prod.fst).Nodup
  | none, _ => List.nodup_nil
  | some elem, hsorted => by
    have hbelow := nodup_nodesBelow (position ++ [.elem]) elem (hsorted elem rfl)
    rw [nodesOfElem, List.map_cons, List.nodup_cons]
    exact ⟨self_notMem_nodesBelow _ elem, hbelow⟩

end

/-! ## Collisions -/

/-- The policy looks for two fields with one joined path. -/
theorem detectRedactionCollision_eq_false_iff (fields : List (List String)) :
    detectRedactionCollision fields = false ↔ (fields.map (">".intercalate ·)).Nodup := by
  have hinsert (seen : List String) : detectRedactionCollision.insertAll seen fields = false ↔
      (∀ path ∈ fields, ">".intercalate path ∉ seen) ∧
        (fields.map (">".intercalate ·)).Nodup := by
    induction fields generalizing seen with
    | nil => simp [detectRedactionCollision.insertAll]
    | cons path fields ih =>
        rw [detectRedactionCollision.insertAll, Bool.or_eq_false_iff, decide_eq_false_iff_not, ih,
          List.map_cons, List.nodup_cons, List.forall_mem_cons]
        simp only [List.mem_cons, not_or, List.mem_map, not_exists, not_and, forall_and]
        tauto
  rw [detectRedactionCollision, hinsert]
  exact and_iff_right fun _ _ ↦ List.not_mem_nil

/-- The fields of a view as the policy sees them. -/
def viewPaths (view : CandidateProfileView) : List (List String) :=
  view.fields.map fun field ↦ escapedPath field.path

/-- The listed nodes have positions of their own. -/
theorem nodup_listedNodes {profile : Profile} (hsorted : profile.root.Sorted) :
    ((listedNodes profile).map Prod.fst).Nodup := by
  have hall := nodup_nodesBelow [] profile.root hsorted
  exact hall.sublist (((List.take_sublist _ _).trans List.filter_sublist).map Prod.fst)

theorem escapedPath_ext_iff {lowercase : String → String} {sep : String} (hsep : sep.toList ≠ [])
    (hbracket : ']' ∉ sep.toList.head?) (left right : Position) :
    sep.intercalate (escapedPath (redactedPath lowercase left)) =
        sep.intercalate (escapedPath (redactedPath lowercase right)) ↔
      escapedPath (redactedPath lowercase left) = escapedPath (redactedPath lowercase right) :=
  intercalate_literals_inj hsep hbracket (fun _ ↦ isLiteral_of_mem_escapedPath)
    fun _ ↦ isLiteral_of_mem_escapedPath

/-- The policy finds a collision exactly if two listed nodes look alike. -/
theorem detectRedactionCollision_viewPaths (lowercase : String → String) {profile : Profile}
    (hsorted : profile.root.Sorted) :
    detectRedactionCollision (viewPaths (.fromProfile lowercase profile)) = true ↔
      ∃ left ∈ listedNodes profile, ∃ right ∈ listedNodes profile, left.1 ≠ right.1 ∧
        escapedPath (redactedPath lowercase left.1) =
          escapedPath (redactedPath lowercase right.1) := by
  have htexts : (viewPaths (.fromProfile lowercase profile)).map (">".intercalate ·) =
      ((listedNodes profile).map Prod.fst).map fun position ↦
        ">".intercalate (escapedPath (redactedPath lowercase position)) := by
    rw [viewPaths, fields_fromProfile, List.map_map, List.map_map, List.map_map]
    rfl
  have hcollision : detectRedactionCollision (viewPaths (.fromProfile lowercase profile)) = true ↔
      ¬ ∀ left ∈ (listedNodes profile).map Prod.fst, ∀ right ∈ (listedNodes profile).map Prod.fst,
        escapedPath (redactedPath lowercase left) = escapedPath (redactedPath lowercase right) →
          left = right := by
    rw [← Bool.not_eq_false, detectRedactionCollision_eq_false_iff, htexts,
      List.nodup_map_iff_inj_on (nodup_listedNodes hsorted)]
    simp only [escapedPath_ext_iff (show ">".toList ≠ [] by decide) (by decide)]
  rw [hcollision]
  simp only [List.forall_mem_map]
  push Not
  simp only [and_comm]

/-- What the policy accepts shows no two fields under one path. -/
theorem renderedPath_ne_of_wouldAccept (lowercase : String → String) {profile : Profile}
    (hsorted : profile.root.Sorted) {retrieval : RetrievalResult} {sampleCount : ℕ}
    {answer : Except InferenceError InferenceDecision}
    (haccept : (evaluatePolicy (gateInputs retrieval sampleCount
      (viewPaths (.fromProfile lowercase profile)) answer)).wouldAccept = true)
    {left right : Position × FieldNode} (hleft : left ∈ listedNodes profile)
    (hright : right ∈ listedNodes profile) (hne : left.1 ≠ right.1) :
    renderedPath (entryStat lowercase left) ≠ renderedPath (entryStat lowercase right) := by
  have hgate : detectRedactionCollision (viewPaths (.fromProfile lowercase profile)) = false :=
    (wouldAccept_iff.mp haccept).2.2.2.2.2.2.2
  intro hrendered
  have hjoined : " > ".intercalate (escapedPath (redactedPath lowercase left.1)) =
      " > ".intercalate (escapedPath (redactedPath lowercase right.1)) := by
    have htexts := congrArg String.toList hrendered
    simp only [renderedPath, String.toList_append] at htexts
    exact String.toList_inj.mp (List.append_cancel_left (List.append_cancel_right htexts))
  have hcollision := (detectRedactionCollision_viewPaths lowercase hsorted).mpr
    ⟨left, hleft, right, hright, hne, (escapedPath_ext_iff (by decide) (by decide) _ _).mp hjoined⟩
  rw [hgate] at hcollision
  cases hcollision

/-- The collision gate is exact: it is raised exactly if two different nodes in the view have the
same escaped segments, so an accepted view writes every field differently. -/
theorem redactionCollision_exact (lowercase : String → String) (profile : Profile)
    (hsorted : profile.root.Sorted) :
    (CandidateProfileView.fromProfile lowercase profile).fields =
        (listedNodes profile).map (entryStat lowercase) ∧
      (∀ entry ∈ listedNodes profile, NodeAt profile.root entry.1 entry.2) ∧
      (detectRedactionCollision (viewPaths (.fromProfile lowercase profile)) = true ↔
        ∃ left ∈ listedNodes profile, ∃ right ∈ listedNodes profile, left.1 ≠ right.1 ∧
          escapedPath (redactedPath lowercase left.1) =
            escapedPath (redactedPath lowercase right.1)) ∧
      ∀ retrieval sampleCount answer,
        (evaluatePolicy (gateInputs retrieval sampleCount
          (viewPaths (.fromProfile lowercase profile)) answer)).wouldAccept = true →
        ∀ left ∈ listedNodes profile, ∀ right ∈ listedNodes profile, left.1 ≠ right.1 →
          renderedPath (entryStat lowercase left) ≠ renderedPath (entryStat lowercase right) := by
  refine ⟨fields_fromProfile lowercase profile, ?_,
    detectRedactionCollision_viewPaths lowercase hsorted, ?_⟩
  · rintro ⟨position, node⟩ hentry
    exact (mem_profileNodes.mp (mem_visibleIn.mp (List.mem_of_mem_take hentry)).1).2
  · intro retrieval sampleCount answer haccept left hleft right hright hne
    exact renderedPath_ne_of_wouldAccept lowercase hsorted haccept hleft hright hne

/-- Under `a` one document has the key `[]`, and the other one an array. -/
def bracketsProfile : Profile :=
  Monoid.profileOf [.object [("a", .object [("[]", .bool true)])],
    .object [("a", .array [.bool true] false)]]

theorem redactionCollision_exact_brackets :
    ∃ left ∈ listedNodes bracketsProfile, ∃ right ∈ listedNodes bracketsProfile,
      left.1 ≠ right.1 ∧
        escapedPath (redactedPath id left.1) = escapedPath (redactedPath id right.1) :=
  (redactionCollision_exact id bracketsProfile
    (Monoid.profileOf_summarizes _).2.sorted).2.2.1.mp (by decide +kernel)

end Deblob.Slm
