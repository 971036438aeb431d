import Deblob.Retrieval.Distance

/-!
# Positions of a field signature

A position is the way from the root to a field or an element, and a signature says what is at each
of its positions. The source writes a position as a text: the keys are joined with dots and an
element is a pair of brackets.
-/

namespace Deblob.Retrieval

open Core Lib Deblob.Monoid
open Umbrella (Value)

inductive Step where
  | field (name : String)
  | elem
  deriving DecidableEq

abbrev Position := List Step

@[elab_as_elim]
theorem FieldSig.induct {motive : FieldSig → Prop}
    (node : ∀ sig : FieldSig, (∀ child ∈ sig.children, motive child.2) →
      (∀ elem, sig.elem = some elem → motive elem) → motive sig) (sig : FieldSig) : motive sig :=
  @FieldSig.rec motive (fun children ↦ ∀ child ∈ children, motive child.2)
    (fun elem ↦ ∀ below, elem = some below → motive below) (fun child ↦ motive child.2)
    (fun optional types children elem hchildren helem ↦
      node ⟨optional, types, children, elem⟩ hchildren helem)
    (fun _ hchild ↦ nomatch hchild)
    (fun _ _ hhead htail ↦ List.forall_mem_cons.mpr ⟨hhead, htail⟩)
    (fun _ hnone ↦ nomatch hnone)
    (fun _ helem _ hsome ↦ Option.some.inj hsome ▸ helem)
    (fun _ _ hchild ↦ hchild) sig

namespace FieldSig

def child? (sig : FieldSig) : Step → Option FieldSig
  | .field name => getEntry sig.children name
  | .elem => sig.elem

/-- What is at a position, if anything is. -/
def at? : FieldSig → Position → Option FieldSig
  | sig, [] => some sig
  | sig, step :: position => (sig.child? step).bind fun child ↦ child.at? position

@[simp]
theorem at?_nil (sig : FieldSig) : sig.at? [] = some sig := rfl

@[simp]
theorem at?_cons (sig : FieldSig) (step : Step) (position : Position) :
    sig.at? (step :: position) = (sig.child? step).bind fun child ↦ child.at? position := rfl

/-- The children of every position are a sorted map, as in the source. -/
def Ordered (sig : FieldSig) : Prop :=
  ∀ position node, sig.at? position = some node → SortedKeys node.children

theorem Ordered.child {sig child : FieldSig} {step : Step} (hsig : sig.Ordered)
    (hchild : sig.child? step = some child) : child.Ordered := by
  intro position node hnode
  apply hsig (step :: position) node
  rw [at?_cons, hchild, Option.bind_some, hnode]

theorem Ordered.elem {sig elem : FieldSig} (hsig : sig.Ordered) (helem : sig.elem = some elem) :
    elem.Ordered :=
  hsig.child (show sig.child? .elem = some elem from helem)

theorem Ordered.node {sig : FieldSig} (hkeys : SortedKeys sig.children)
    (hchildren : ∀ child ∈ sig.children, child.2.Ordered)
    (helem : ∀ elem, sig.elem = some elem → elem.Ordered) : sig.Ordered := by
  intro position node hnode
  match position with
  | [] => exact Option.some.inj hnode ▸ hkeys
  | step :: position =>
    rw [at?_cons] at hnode
    obtain ⟨child, hchild, hrest⟩ := Option.bind_eq_some_iff.mp hnode
    cases step with
    | field name => exact hchildren _ (mem_of_getEntry hchild) position node hrest
    | elem => exact helem child hchild position node hrest

theorem Ordered.mem_children {sig child : FieldSig} {name : String} (hsig : sig.Ordered) :
    (name, child) ∈ sig.children ↔ sig.child? (.field name) = some child :=
  (hsig [] sig rfl).mem_iff

/-! ## The positions there are -/

mutual

def positions : FieldSig → List Position
  | ⟨_, _, children, elem⟩ => [] :: (childPositions children ++ elemPositions elem)

def childPositions : List (String × FieldSig) → List Position
  | [] => []
  | (name, child) :: children =>
    child.positions.map (Step.field name :: ·) ++ childPositions children

def elemPositions : Option FieldSig → List Position
  | none => []
  | some elem => elem.positions.map (Step.elem :: ·)

end

theorem mem_childPositions {children : List (String × FieldSig)} {position : Position} :
    position ∈ childPositions children ↔
      ∃ child ∈ children, ∃ rest ∈ child.2.positions, .field child.1 :: rest = position := by
  induction children with
  | nil => simp [childPositions]
  | cons child children ih =>
      rw [childPositions, List.mem_append, ih, List.mem_map]
      simp only [List.mem_cons, exists_eq_or_imp]

theorem mem_elemPositions {elem : Option FieldSig} {position : Position} :
    position ∈ elemPositions elem ↔
      ∃ below, elem = some below ∧ ∃ rest ∈ below.positions, .elem :: rest = position := by
  cases elem with
  | none => simp [elemPositions]
  | some below => simp [elemPositions]

theorem positions_eq (sig : FieldSig) :
    sig.positions = [] :: (childPositions sig.children ++ elemPositions sig.elem) := by
  cases sig
  rw [positions]

theorem cons_mem_positions {sig : FieldSig} (hsig : sig.Ordered) {step : Step}
    {rest : Position} :
    step :: rest ∈ sig.positions ↔
      ∃ child, sig.child? step = some child ∧ rest ∈ child.positions := by
  rw [positions_eq, List.mem_cons, List.mem_append, mem_childPositions, mem_elemPositions]
  cases step with
  | elem => simp [child?]
  | field name =>
    simp only [← hsig.mem_children]
    constructor
    · simp only [List.cons_ne_nil, false_or, List.cons.injEq, Step.field.injEq, reduceCtorEq,
        false_and, and_false, exists_false, or_false, Prod.exists]
      rintro ⟨_, child, hchild, _, hrest, rfl, rfl⟩
      exact ⟨child, hchild, hrest⟩
    · rintro ⟨child, hchild, hrest⟩
      exact .inr (.inl ⟨(name, child), hchild, rest, hrest, rfl⟩)

/-- The list has exactly the positions of the signature. -/
theorem mem_positions {sig : FieldSig} (hsig : sig.Ordered) {position : Position} :
    position ∈ sig.positions ↔ (sig.at? position).isSome := by
  induction position generalizing sig with
  | nil => simp [positions_eq]
  | cons step rest ih =>
      rw [cons_mem_positions hsig, at?_cons]
      cases hchild : sig.child? step with
      | none => simp
      | some child => simp [ih (hsig.child hchild)]

/-! ## Depth -/

theorem one_add_maxDepth_le_maxChildDepth {children : List (String × FieldSig)}
    {child : String × FieldSig} (hchild : child ∈ children) :
    1 + maxDepth child.2 ≤ maxChildDepth children := by
  induction children with
  | nil => cases hchild
  | cons head children ih =>
      rw [maxChildDepth]
      obtain rfl | htail := List.mem_cons.mp hchild
      · exact le_max_left _ _
      · exact (ih htail).trans (le_max_right _ _)

theorem exists_eq_maxChildDepth {children : List (String × FieldSig)}
    (hpos : maxChildDepth children ≠ 0) :
    ∃ child ∈ children, maxChildDepth children = 1 + maxDepth child.2 := by
  induction children with
  | nil => exact absurd rfl hpos
  | cons head children ih =>
      rw [maxChildDepth] at hpos ⊢
      obtain hle | hle := le_total (1 + maxDepth head.2) (maxChildDepth children)
      · obtain ⟨child, hchild, hdepth⟩ := ih (by omega)
        exact ⟨child, List.mem_cons_of_mem _ hchild, by rw [max_eq_right hle, hdepth]⟩
      · exact ⟨head, List.mem_cons_self, max_eq_left hle⟩

theorem maxDepth_eq (sig : FieldSig) :
    maxDepth sig = max (maxChildDepth sig.children) (maxElemDepth sig.elem) := by
  cases sig
  rw [maxDepth]

theorem one_add_maxDepth_le {sig child : FieldSig} {step : Step}
    (hchild : sig.child? step = some child) : 1 + maxDepth child ≤ maxDepth sig := by
  rw [maxDepth_eq sig]
  cases step with
  | field name =>
    exact (one_add_maxDepth_le_maxChildDepth (mem_of_getEntry hchild)).trans (le_max_left _ _)
  | elem =>
    have helem : sig.elem = some child := hchild
    rw [helem, maxElemDepth]
    exact le_max_right _ _

theorem exists_child_of_maxDepth {sig : FieldSig} (hsig : sig.Ordered) (hpos : maxDepth sig ≠ 0) :
    ∃ step child, sig.child? step = some child ∧ maxDepth sig = 1 + maxDepth child := by
  rw [maxDepth_eq sig] at hpos ⊢
  obtain hle | hle := le_total (maxChildDepth sig.children) (maxElemDepth sig.elem)
  · rw [max_eq_right hle] at hpos ⊢
    cases helem : sig.elem with
    | none => exact absurd (helem ▸ rfl) hpos
    | some below => exact ⟨.elem, below, helem, rfl⟩
  · rw [max_eq_left hle] at hpos ⊢
    obtain ⟨⟨name, child⟩, hchild, hdepth⟩ := exists_eq_maxChildDepth hpos
    exact ⟨.field name, child, hsig.mem_children.mp hchild, hdepth⟩

theorem length_le_maxDepth {sig : FieldSig} {position : Position}
    (hposition : (sig.at? position).isSome) : position.length ≤ maxDepth sig := by
  induction position generalizing sig with
  | nil => exact Nat.zero_le _
  | cons step rest ih =>
      rw [at?_cons] at hposition
      cases hchild : sig.child? step with
      | none => simp [hchild] at hposition
      | some child =>
        rw [hchild, Option.bind_some] at hposition
        have hbelow := one_add_maxDepth_le hchild
        have hrest := ih hposition
        rw [List.length_cons]
        omega

/-- Some position is as deep as the signature. -/
theorem exists_deepest {sig : FieldSig} (hsig : sig.Ordered) :
    ∃ position, (sig.at? position).isSome ∧ position.length = maxDepth sig := by
  induction hdepth : maxDepth sig generalizing sig with
  | zero => exact ⟨[], rfl, rfl⟩
  | succ depth ih =>
      obtain ⟨step, child, hchild, hbelow⟩ :=
        exists_child_of_maxDepth hsig (by rw [hdepth]; exact Nat.succ_ne_zero depth)
      obtain ⟨rest, hrest, hlength⟩ := ih (hsig.child hchild) (by omega)
      refine ⟨step :: rest, ?_, ?_⟩
      · rw [at?_cons, hchild, Option.bind_some, hrest]
      · rw [List.length_cons, hlength]

/-- The depth depends on the positions alone. -/
theorem maxDepth_congr {left right : FieldSig} (hleft : left.Ordered) (hright : right.Ordered)
    (hsame : ∀ position, (left.at? position).isSome ↔ (right.at? position).isSome) :
    maxDepth left = maxDepth right := by
  have hle {one other : FieldSig} (hone : one.Ordered)
      (hsub : ∀ position, (one.at? position).isSome → (other.at? position).isSome) :
      maxDepth one ≤ maxDepth other := by
    obtain ⟨position, hposition, hlength⟩ := exists_deepest hone
    exact hlength ▸ length_le_maxDepth (hsub position hposition)
  exact le_antisymm (hle hleft fun position ↦ (hsame position).mp)
    (hle hright fun position ↦ (hsame position).mpr)

end FieldSig

/-! ## Both trees are ordered -/

theorem getEntry_collectMap_map {V W : Type*} {view : V → W} {entries : List (String × V)}
    {key : String} {value : W}
    (hentry : getEntry (collectMap (entries.map fun entry ↦ (entry.1, view entry.2))) key =
      some value) : ∃ entry, view entry = value := by
  obtain ⟨entry, -, hview⟩ := List.mem_map.mp (mem_of_mem_collectMap (mem_of_getEntry hentry))
  exact ⟨entry.2, congrArg Prod.snd hview⟩

theorem child?_fieldSigFromNode {denom : ℕ} {field : FieldNode} {step : Step} {child : FieldSig}
    (hchild : (fieldSigFromNode denom field).child? step = some child) :
    ∃ below inner, fieldSigFromNode below inner = child := by
  rw [fieldSigFromNode_eq] at hchild
  cases step with
  | field name =>
    exact ⟨_, getEntry_collectMap_map hchild⟩
  | elem =>
    obtain ⟨inner, -, hinner⟩ := Option.map_eq_some_iff.mp hchild
    exact ⟨_, inner, hinner⟩

theorem ordered_fieldSigFromNode (denom : ℕ) (field : FieldNode) :
    (fieldSigFromNode denom field).Ordered := by
  intro position node hnode
  induction position generalizing denom field with
  | nil =>
      obtain rfl := Option.some.inj hnode
      rw [fieldSigFromNode_eq]
      exact sortedKeys_collectMap _
  | cons step rest ih =>
      rw [FieldSig.at?_cons] at hnode
      obtain ⟨child, hchild, hrest⟩ := Option.bind_eq_some_iff.mp hnode
      obtain ⟨below, inner, rfl⟩ := child?_fieldSigFromNode hchild
      exact ih below inner hrest

theorem parseChildrenOf_cases (entries : List (String × Value)) :
    parseChildrenOf entries = [] ∨ ∃ children : List (String × Value),
      parseChildrenOf entries =
        collectMap (children.map fun child ↦ (child.1, parseFieldSig child.2)) := by
  induction entries with
  | nil => exact .inl rfl
  | cons entry entries ih =>
      obtain ⟨name, value⟩ := entry
      by_cases hname : name = "children"
      · cases value with
        | object children =>
          exact .inr ⟨children, by rw [parseChildrenOf, if_pos hname, parseChildren_eq]⟩
        | _ => exact .inl (by simp [parseChildrenOf, hname])
      · have hskip : parseChildrenOf ((name, value) :: entries) = parseChildrenOf entries := by
          rw [parseChildrenOf.eq_def]
          exact if_neg hname
        rwa [hskip]

theorem exists_of_parseElemOf {entries : List (String × Value)} {child : FieldSig}
    (hchild : parseElemOf entries = some child) : ∃ value, parseFieldSig value = child := by
  induction entries with
  | nil => cases hchild
  | cons entry entries ih =>
      rw [parseElemOf] at hchild
      split_ifs at hchild
      · exact ⟨entry.2, Option.some.inj hchild⟩
      · exact ih hchild

/-- What a value is parsed to has the children and the element of its entries, or none. -/
theorem parseFieldSig_cases (value : Value) :
    ((parseFieldSig value).children = [] ∧ (parseFieldSig value).elem = none) ∨
      ∃ entries, (parseFieldSig value).children = parseChildrenOf entries ∧
        (parseFieldSig value).elem = parseElemOf entries := by
  cases value with
  | object entries => exact .inr ⟨entries, by rw [parseFieldSig], by rw [parseFieldSig]⟩
  | _ => exact .inl ⟨rfl, rfl⟩

theorem sortedKeys_parseFieldSig (value : Value) : SortedKeys (parseFieldSig value).children := by
  obtain ⟨hchildren, -⟩ | ⟨entries, hchildren, -⟩ := parseFieldSig_cases value
  · exact hchildren ▸ List.Pairwise.nil
  · rw [hchildren]
    obtain hnone | ⟨children, hsome⟩ := parseChildrenOf_cases entries
    · exact hnone ▸ List.Pairwise.nil
    · exact hsome ▸ sortedKeys_collectMap _

theorem child?_parseFieldSig {value : Value} {step : Step} {child : FieldSig}
    (hchild : (parseFieldSig value).child? step = some child) :
    ∃ inner, parseFieldSig inner = child := by
  obtain ⟨hchildren, helem⟩ | ⟨entries, hchildren, helem⟩ := parseFieldSig_cases value
  · cases step with
    | field name => simp [FieldSig.child?, hchildren, getEntry] at hchild
    | elem => simp [FieldSig.child?, helem] at hchild
  · cases step with
    | field name =>
      change getEntry (parseFieldSig value).children name = some child at hchild
      rw [hchildren] at hchild
      obtain hnone | ⟨children, hsome⟩ := parseChildrenOf_cases entries
      · simp [hnone, getEntry] at hchild
      · exact getEntry_collectMap_map (hsome ▸ hchild)
    | elem => exact exists_of_parseElemOf (helem.symm.trans hchild)

theorem ordered_parseFieldSig (value : Value) : (parseFieldSig value).Ordered := by
  intro position node hnode
  induction position generalizing value with
  | nil => exact Option.some.inj hnode ▸ sortedKeys_parseFieldSig value
  | cons step rest ih =>
      rw [FieldSig.at?_cons] at hnode
      obtain ⟨child, hchild, hrest⟩ := Option.bind_eq_some_iff.mp hnode
      obtain ⟨inner, rfl⟩ := child?_parseFieldSig hchild
      exact ih inner hrest

end Deblob.Retrieval
