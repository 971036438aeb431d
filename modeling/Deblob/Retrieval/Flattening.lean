import Deblob.Lib.Naming
import Deblob.Retrieval.Positions

/-!
# Flattened signatures

A walk visits the fields below a position and the element of each field, and writes what it visits
under the text of its position. The elements that lie directly below an element are not visited.
-/

namespace Deblob.Retrieval

open Lib

/-! ## Texts -/

def pathStep (path : String) : Step → String
  | .field name => childPath path name
  | .elem => path ++ "[]"

/-- The text a position is written as. -/
def pathText (position : Position) : String := position.foldl pathStep ""

@[simp]
theorem pathText_field (position : Position) (name : String) :
    pathText (position ++ [.field name]) = childPath (pathText position) name := by
  simp [pathText, pathStep]

@[simp]
theorem pathText_elem (position : Position) :
    pathText (position ++ [.elem]) = pathText position ++ "[]" := by
  simp [pathText, pathStep]

theorem pathText_elem_ne (position : Position) : pathText (position ++ [.elem]) ≠ "" := by
  rw [pathText_elem]
  intro hempty
  simpa using congrArg String.toList hempty

/-! ## Visits -/

abbrev Visit := Position × FieldSig

mutual

/-- What a walk writes, in its order. -/
def visits (position : Position) : FieldSig → List Visit
  | ⟨_, _, children, elem⟩ =>
    visitsChildren position children ++
      if pathText position = "" then visitsElem (position ++ [.elem]) elem else []

def visitsChildren (position : Position) : List (String × FieldSig) → List Visit
  | [] => []
  | (name, child) :: children =>
    let below := position ++ [.field name]
    (below, child) ::
      (visits below child ++ (visitsElemOf (below ++ [.elem]) child ++
        visitsChildren position children))

def visitsElemOf (position : Position) : FieldSig → List Visit
  | ⟨_, _, _, elem⟩ => visitsElem position elem

def visitsElem (position : Position) : Option FieldSig → List Visit
  | none => []
  | some elem => (position, elem) :: visits position elem

end

section

variable (unicode : Unicode)

/-- The tokens of the key a position ends in. -/
def lastTokens (position : Position) : List String :=
  match position.getLast? with
  | some (.field name) => normalizeNameTokens unicode name
  | _ => []

def record (features : StructuralFeatures) (visit : Visit) : StructuralFeatures :=
  addTokens (recordPath features (pathText visit.1) visit.2) (lastTokens unicode visit.1)

theorem record_field (features : StructuralFeatures) (position : Position) (name : String)
    (node : FieldSig) :
    record unicode features (position ++ [.field name], node) =
      addTokens (recordPath features (childPath (pathText position) name) node)
        (normalizeNameTokens unicode name) := by
  simp [record, lastTokens]

theorem record_elem (features : StructuralFeatures) (position : Position) (node : FieldSig) :
    record unicode features (position ++ [.elem], node) =
      recordPath features (pathText position ++ "[]") node := by
  simp [record, lastTokens, addTokens]

mutual

/-- A walk writes its visits one after another. -/
theorem walk_eq (position : Position) (features : StructuralFeatures) : ∀ sig : FieldSig,
    walk unicode (pathText position) features sig =
      (visits position sig).foldl (record unicode) features
  | ⟨_, _, children, elem⟩ => by
    rw [walk, visits, List.foldl_append, walkChildren_eq position features children]
    split_ifs with hroot
    · rw [← walkElem_eq, hroot]
      rfl
    · rfl

theorem walkChildren_eq (position : Position) (features : StructuralFeatures) :
    ∀ children : List (String × FieldSig),
      walkChildren unicode (pathText position) features children =
        (visitsChildren position children).foldl (record unicode) features
  | [] => rfl
  | (name, child) :: children => by
    rw [walkChildren, visitsChildren, List.foldl_cons, List.foldl_append, List.foldl_append,
      record_field, ← walk_eq _ _ child, ← walkElemOf_eq _ _ child,
      ← walkChildren_eq _ _ children, pathText_field]

theorem walkElemOf_eq (position : Position) (features : StructuralFeatures) : ∀ sig : FieldSig,
    walkElemOf unicode (pathText position ++ "[]") features sig =
      (visitsElemOf (position ++ [.elem]) sig).foldl (record unicode) features
  | ⟨_, _, _, elem⟩ => by
    rw [walkElemOf, visitsElemOf, walkElem_eq position features elem]

theorem walkElem_eq (position : Position) (features : StructuralFeatures) :
    ∀ elem : Option FieldSig,
      walkElem unicode (pathText position ++ "[]") features elem =
        (visitsElem (position ++ [.elem]) elem).foldl (record unicode) features
  | none => rfl
  | some elem => by
    rw [walkElem, visitsElem, List.foldl_cons, record_elem, ← pathText_elem]
    exact walk_eq _ _ elem

end

/-! ## What is visited -/

end

/-- No element stands directly below an element. -/
def Unnested (position : Position) : Prop :=
  position.IsChain fun left right ↦ ¬(left = .elem ∧ right = .elem)

theorem visits_eq (position : Position) (sig : FieldSig) :
    visits position sig = visitsChildren position sig.children ++
      if pathText position = "" then visitsElem (position ++ [.elem]) sig.elem else [] := by
  cases sig
  rw [visits]

theorem mem_visitsElem {position : Position} {visit : Visit} {elem : Option FieldSig} :
    visit ∈ visitsElem (position ++ [.elem]) elem ↔ ∃ below, elem = some below ∧
      (visit = (position ++ [.elem], below) ∨
        visit ∈ visitsChildren (position ++ [.elem]) below.children) := by
  cases elem with
  | none => simp [visitsElem]
  | some below =>
      rw [visitsElem, List.mem_cons, visits_eq, if_neg (pathText_elem_ne position),
        List.append_nil]
      simp

/-- A field is visited, then what is below it, then its element and what is below that. -/
theorem mem_visitsChildren {position : Position} {visit : Visit}
    {children : List (String × FieldSig)} :
    visit ∈ visitsChildren position children ↔ ∃ child ∈ children,
      visit = (position ++ [.field child.1], child.2) ∨
        visit ∈ visitsChildren (position ++ [.field child.1]) child.2.children ∨
        visit ∈ visitsElem (position ++ [.field child.1] ++ [.elem]) child.2.elem := by
  induction children with
  | nil => simp [visitsChildren]
  | cons child children ih =>
      obtain ⟨name, optional, types, below, elem⟩ := child
      rw [visitsChildren]
      simp only [List.mem_cons, List.mem_append, visits, visitsElemOf, ih, exists_eq_or_imp]
      split_ifs with hempty
      · -- the element of a field with an empty text is visited twice
        simp only [or_assoc, or_self_left]
      · simp only [List.not_mem_nil, or_false, or_assoc]

theorem unnested_field {name : String} {rest : Position} :
    Unnested (.field name :: rest) ↔ Unnested rest := by
  unfold Unnested
  rw [List.isChain_cons]
  simp

theorem unnested_elem {rest : Position} :
    Unnested (.elem :: rest) ↔ rest.head? ≠ some .elem ∧ Unnested rest := by
  unfold Unnested
  rw [List.isChain_cons]
  simp only [true_and, Option.mem_def]
  constructor
  · rintro ⟨hhead, hrest⟩
    exact ⟨fun helem ↦ hhead .elem helem rfl, hrest⟩
  · rintro ⟨hhead, hrest⟩
    exact ⟨fun step hstep helem ↦ hhead (helem ▸ hstep), hrest⟩

/-- The fields of the signature are visited, and what is below them without nested elements. -/
def VisitsFields (sig : FieldSig) : Prop :=
  ∀ position found node, (found, node) ∈ visitsChildren position sig.children ↔
    ∃ name rest, found = position ++ .field name :: rest ∧
      sig.at? (.field name :: rest) = some node ∧ Unnested (.field name :: rest)

theorem mem_visitsElem_iff {sig node : FieldSig} {position found : Position}
    (helem : ∀ elem, sig.elem = some elem → VisitsFields elem) :
    (found, node) ∈ visitsElem (position ++ [.elem]) sig.elem ↔
      ∃ rest, found = position ++ .elem :: rest ∧ sig.at? (.elem :: rest) = some node ∧
        Unnested (.elem :: rest) := by
  rw [mem_visitsElem]
  constructor
  · rintro ⟨elem, hsome, heq | hbelow⟩
    · obtain ⟨rfl, rfl⟩ := Prod.mk.inj heq
      exact ⟨[], rfl, Option.bind_eq_some_iff.mpr ⟨node, hsome, rfl⟩, .singleton _⟩
    · obtain ⟨name, rest, rfl, hat, hrest⟩ := (helem elem hsome _ _ _).mp hbelow
      refine ⟨.field name :: rest, by simp, ?_, unnested_elem.mpr ⟨by simp, hrest⟩⟩
      exact Option.bind_eq_some_iff.mpr ⟨elem, hsome, hat⟩
  · rintro ⟨rest, rfl, hat, hrest⟩
    obtain ⟨elem, hsome, hat⟩ := Option.bind_eq_some_iff.mp hat
    refine ⟨elem, hsome, ?_⟩
    obtain ⟨hhead, hrest⟩ := unnested_elem.mp hrest
    match rest with
    | [] => exact .inl (by rw [Option.some.inj hat])
    | .elem :: _ => exact absurd rfl hhead
    | .field name :: rest =>
      exact .inr ((helem elem hsome _ _ _).mpr ⟨name, rest, by simp, hat, hrest⟩)

/-- At a field and below it everything without nested elements is visited. -/
theorem mem_visits_field {child node : FieldSig} {below found : Position}
    (hfields : VisitsFields child) (helem : ∀ elem, child.elem = some elem → VisitsFields elem) :
    (found, node) = (below, child) ∨ (found, node) ∈ visitsChildren below child.children ∨
        (found, node) ∈ visitsElem (below ++ [.elem]) child.elem ↔
      ∃ rest, found = below ++ rest ∧ child.at? rest = some node ∧ Unnested rest := by
  rw [hfields, mem_visitsElem_iff helem]
  constructor
  · rintro (heq | ⟨name, rest, hfound, hat, hrest⟩ | ⟨rest, hfound, hat, hrest⟩)
    · obtain ⟨rfl, rfl⟩ := Prod.mk.inj heq
      exact ⟨[], (List.append_nil _).symm, rfl, .nil⟩
    · exact ⟨_, hfound, hat, hrest⟩
    · exact ⟨_, hfound, hat, hrest⟩
  · rintro ⟨rest, hfound, hat, hrest⟩
    match rest with
    | [] => exact .inl (by rw [hfound, List.append_nil, Option.some.inj hat])
    | .field name :: rest => exact .inr (.inl ⟨name, rest, hfound, hat, hrest⟩)
    | .elem :: rest => exact .inr (.inr ⟨rest, hfound, hat, hrest⟩)

/-- The elements of the fields are visited by the walk of the signature that has the fields. -/
theorem visitsFields {sig : FieldSig} (hsig : sig.Ordered) : VisitsFields sig := by
  suffices hboth : VisitsFields sig ∧ ∀ elem, sig.elem = some elem → VisitsFields elem from
    hboth.1
  induction sig using FieldSig.induct with
  | node sig hchildren helem =>
      refine ⟨fun position found node ↦ ?_, fun elem hsome ↦
        (helem elem hsome (hsig.elem hsome)).1⟩
      rw [mem_visitsChildren]
      constructor
      · rintro ⟨⟨name, child⟩, hmem, hvisit⟩
        have hchild : sig.child? (.field name) = some child := hsig.mem_children.mp hmem
        obtain ⟨hfields, helems⟩ := hchildren _ hmem (hsig.child hchild)
        obtain ⟨rest, hfound, hat, hrest⟩ := (mem_visits_field hfields helems).mp hvisit
        refine ⟨name, rest, by simp [hfound], ?_, unnested_field.mpr hrest⟩
        rw [FieldSig.at?_cons, hchild, Option.bind_some, hat]
      · rintro ⟨name, rest, hfound, hat, hrest⟩
        obtain ⟨child, hchild, hat⟩ := Option.bind_eq_some_iff.mp hat
        have hmem : (name, child) ∈ sig.children := hsig.mem_children.mpr hchild
        obtain ⟨hfields, helems⟩ := hchildren _ hmem (hsig.child hchild)
        refine ⟨(name, child), hmem, (mem_visits_field hfields helems).mpr ?_⟩
        exact ⟨rest, by simp [hfound], hat, unnested_field.mp hrest⟩

/-- A position below the root and what is there. -/
def FieldSig.Below (sig : FieldSig) (position : Position) (node : FieldSig) : Prop :=
  position ≠ [] ∧ sig.at? position = some node

/-- The walk from the root visits what is below the root, apart from nested elements. -/
theorem mem_visits_root {sig : FieldSig} (hsig : sig.Ordered) {found : Position}
    {node : FieldSig} :
    (found, node) ∈ visits [] sig ↔ sig.Below found node ∧ Unnested found := by
  have helem (elem : FieldSig) (hsome : sig.elem = some elem) : VisitsFields elem :=
    visitsFields (hsig.elem hsome)
  rw [visits_eq, show pathText [] = "" from rfl, if_pos rfl, List.mem_append, visitsFields hsig,
    mem_visitsElem_iff helem]
  constructor
  · rintro (⟨name, rest, rfl, hat, hrest⟩ | ⟨rest, rfl, hat, hrest⟩)
    · exact ⟨⟨by simp, hat⟩, hrest⟩
    · exact ⟨⟨by simp, hat⟩, hrest⟩
  · rintro ⟨⟨hne, hat⟩, hfound⟩
    match found with
    | [] => exact absurd rfl hne
    | .field name :: rest => exact .inl ⟨name, rest, rfl, hat, hfound⟩
    | .elem :: rest => exact .inr ⟨rest, rfl, hat, hfound⟩

/-! ## The features -/

section

variable (unicode : Unicode)

/-- What each visit adds to a set is in it after all of them. -/
theorem mem_foldl_record {set : StructuralFeatures → Finset String} {adds : Visit → String → Prop}
    (hstep : ∀ features visit value, value ∈ set (record unicode features visit) ↔
      value ∈ set features ∨ adds visit value) (visits : List Visit)
    (features : StructuralFeatures) (value : String) :
    value ∈ set (visits.foldl (record unicode) features) ↔
      value ∈ set features ∨ ∃ visit ∈ visits, adds visit value := by
  induction visits generalizing features with
  | nil => simp
  | cons visit visits ih =>
      rw [List.foldl_cons, ih, hstep, or_assoc]
      simp only [List.mem_cons, exists_eq_or_imp]

theorem getEntry_foldl_record {visits : List Visit} {features : StructuralFeatures}
    {key : String} {types : Finset String}
    (hentry : getEntry (visits.foldl (record unicode) features).paths key = some types) :
    (∃ visit ∈ visits, pathText visit.1 = key ∧ visit.2.types = types) ∨
      getEntry features.paths key = some types := by
  induction visits generalizing features with
  | nil => exact .inr hentry
  | cons visit visits ih =>
      obtain ⟨later, hlater, hkey⟩ | hbefore := ih hentry
      · exact .inl ⟨later, List.mem_cons_of_mem _ hlater, hkey⟩
      · have hput : (if key = pathText visit.1 then some visit.2.types
            else getEntry features.paths key) = some types :=
          (lookup_insert features.paths (pathText visit.1) key visit.2.types).symm.trans hbefore
        split_ifs at hput with hkey
        · exact .inl ⟨visit, List.mem_cons_self, hkey.symm, Option.some.inj hput⟩
        · exact .inr hput

theorem sortedKeys_foldl_record (visits : List Visit) {features : StructuralFeatures}
    (hfeatures : SortedKeys features.paths) :
    SortedKeys (visits.foldl (record unicode) features).paths := by
  induction visits generalizing features with
  | nil => exact hfeatures
  | cons visit visits ih => exact ih (sortedKeys_insertWith hfeatures _ _ _)

theorem depth_foldl_record (visits : List Visit) (features : StructuralFeatures) :
    (visits.foldl (record unicode) features).depth = features.depth := by
  induction visits generalizing features with
  | nil => rfl
  | cons visit visits ih => exact ih _

theorem extractFeatures_eq (sig : FieldSig) :
    extractFeatures unicode sig =
      (visits [] sig).foldl (record unicode) ⟨[], ∅, ∅, ∅, ∅, ∅, maxDepth sig⟩ :=
  walk_eq unicode [] _ sig

@[simp]
theorem depth_extractFeatures (sig : FieldSig) :
    (extractFeatures unicode sig).depth = maxDepth sig := by
  rw [extractFeatures_eq, depth_foldl_record]

theorem sortedKeys_extractFeatures (sig : FieldSig) :
    SortedKeys (extractFeatures unicode sig).paths := by
  rw [extractFeatures_eq]
  exact sortedKeys_foldl_record unicode _ .nil

/-- A position that the walk writes, and what is there. -/
def FieldSig.Recorded (sig : FieldSig) (position : Position) (node : FieldSig) : Prop :=
  sig.Below position node ∧ Unnested position

variable {sig : FieldSig}

/-- A set of the features has what the recorded positions add to it. -/
theorem mem_extractFeatures (set : StructuralFeatures → Finset String)
    (adds : Visit → String → Prop) (hsig : sig.Ordered)
    (hempty : set ⟨[], ∅, ∅, ∅, ∅, ∅, maxDepth sig⟩ = ∅)
    (hstep : ∀ features visit value, value ∈ set (record unicode features visit) ↔
      value ∈ set features ∨ adds visit value) (value : String) :
    value ∈ set (extractFeatures unicode sig) ↔
      ∃ position node, sig.Recorded position node ∧ adds (position, node) value := by
  rw [extractFeatures_eq, mem_foldl_record unicode hstep, hempty]
  simp only [Finset.notMem_empty, false_or, Prod.exists, mem_visits_root hsig]
  rfl

theorem mem_insert_if {condition : Prop} [Decidable condition] {set : Finset String}
    {key value : String} :
    value ∈ (if condition then insert key set else set) ↔
      value ∈ set ∨ (condition ∧ key = value) := by
  split_ifs with hcondition
  · rw [Finset.mem_insert, or_comm, eq_comm]
    simp [hcondition]
  · simp [hcondition]

theorem mem_required (hsig : sig.Ordered) (key : String) :
    key ∈ (extractFeatures unicode sig).required ↔ ∃ position node,
      sig.Recorded position node ∧ node.optional = false ∧ pathText position = key := by
  apply mem_extractFeatures unicode StructuralFeatures.required
    (fun visit value ↦ visit.2.optional = false ∧ pathText visit.1 = value) hsig rfl
  intro features visit value
  rw [← mem_insert_if]
  change value ∈ (if visit.2.optional then _ else _) ↔ _
  cases visit.2.optional <;> rfl

theorem mem_nullable (hsig : sig.Ordered) (key : String) :
    key ∈ (extractFeatures unicode sig).nullable ↔ ∃ position node,
      sig.Recorded position node ∧ "null" ∈ node.types ∧ pathText position = key :=
  mem_extractFeatures unicode StructuralFeatures.nullable
    (fun visit value ↦ "null" ∈ visit.2.types ∧ pathText visit.1 = value) hsig rfl
    (fun _ _ _ ↦ mem_insert_if) key

theorem mem_arrayPaths (hsig : sig.Ordered) (key : String) :
    key ∈ (extractFeatures unicode sig).arrayPaths ↔ ∃ position node,
      sig.Recorded position node ∧ "array" ∈ node.types ∧ pathText position = key :=
  mem_extractFeatures unicode StructuralFeatures.arrayPaths
    (fun visit value ↦ "array" ∈ visit.2.types ∧ pathText visit.1 = value) hsig rfl
    (fun _ _ _ ↦ mem_insert_if) key

theorem mem_objectPaths (hsig : sig.Ordered) (key : String) :
    key ∈ (extractFeatures unicode sig).objectPaths ↔ ∃ position node,
      sig.Recorded position node ∧ "object" ∈ node.types ∧ pathText position = key :=
  mem_extractFeatures unicode StructuralFeatures.objectPaths
    (fun visit value ↦ "object" ∈ visit.2.types ∧ pathText visit.1 = value) hsig rfl
    (fun _ _ _ ↦ mem_insert_if) key

theorem mem_nameTokens (hsig : sig.Ordered) (token : String) :
    token ∈ (extractFeatures unicode sig).nameTokens ↔ ∃ position node,
      sig.Recorded position node ∧ token ∈ lastTokens unicode position := by
  apply mem_extractFeatures unicode StructuralFeatures.nameTokens
    (fun visit value ↦ value ∈ lastTokens unicode visit.1) hsig rfl
  intro features visit value
  change value ∈ features.nameTokens ∪ _ ↔ _
  rw [Finset.mem_union, List.mem_toFinset]

/-- The texts that have an entry are those of the recorded positions. -/
theorem mem_paths (hsig : sig.Ordered) (key : String) :
    key ∈ (extractFeatures unicode sig).paths.map Prod.fst ↔ ∃ position node,
      sig.Recorded position node ∧ pathText position = key := by
  rw [← List.mem_toFinset]
  apply mem_extractFeatures unicode (fun features ↦ (features.paths.map Prod.fst).toFinset)
    (fun visit value ↦ pathText visit.1 = value) hsig rfl
  intro features visit value
  rw [List.mem_toFinset, List.mem_toFinset, or_comm, eq_comm]
  exact mem_keys_insertWith

/-- An entry has the types of a position that is written under its text. -/
theorem exists_recorded_of_getEntry (hsig : sig.Ordered) {key : String} {types : Finset String}
    (hentry : getEntry (extractFeatures unicode sig).paths key = some types) :
    ∃ position node, sig.Recorded position node ∧ pathText position = key ∧
      node.types = types := by
  rw [extractFeatures_eq] at hentry
  obtain ⟨⟨position, node⟩, hvisit, hkey⟩ | hnone := getEntry_foldl_record unicode hentry
  · exact ⟨position, node, (mem_visits_root hsig).mp hvisit, hkey⟩
  · cases hnone

end

end Deblob.Retrieval
