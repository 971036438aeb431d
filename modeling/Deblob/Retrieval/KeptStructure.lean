import Deblob.Retrieval.Flattening
import Deblob.Retrieval.Indiscernible

/-!
# What the features keep of a signature

The features tell signatures apart by the texts of their positions. A signature is readable if all
its positions are written and no two under one text, and exactly then each position has an entry of
its own. Two readable signatures have no distance exactly if they read alike, and they can read
alike without being the same only where a text stands for one position here and another there.
-/

namespace Deblob.Retrieval

open Lib

/-- At a position below the root the signature has these types and this flag. -/
def FieldSig.Has (sig : FieldSig) (position : Position) (types : Finset String)
    (optional : Bool) : Prop :=
  ∃ node, sig.Below position node ∧ node.types = types ∧ node.optional = optional

/-- The positions below the root are the same on both sides, with the same types and flags. -/
def SameBelow (left right : FieldSig) : Prop :=
  ∀ position types optional, left.Has position types optional ↔ right.Has position types optional

/-- Every position below the root has an entry that is no other position's. -/
def HasOwnEntries (unicode : Unicode) (sig : FieldSig) : Prop :=
  ∃ own : Position → String,
    (∀ position node other inner, sig.Below position node → sig.Below other inner →
      own position = own other → position = other) ∧
    ∀ position node, sig.Below position node →
      getEntry (extractFeatures unicode sig).paths (own position) = some node.types ∧
        (own position ∈ (extractFeatures unicode sig).required ↔ node.optional = false)

structure KeepsStructure (unicode : Unicode) (left right : FieldSig) : Prop where
  own_left : HasOwnEntries unicode left
  own_right : HasOwnEntries unicode right
  total_eq_zero :
    (computeDistance (extractFeatures unicode left) (extractFeatures unicode right)).total = 0 ↔
      SameBelow left right

/-! ## Conditions on signatures -/

structure FieldSig.Readable (sig : FieldSig) : Prop where
  unnested : ∀ position node, sig.Below position node → Unnested position
  injective : ∀ position node other inner, sig.Below position node → sig.Below other inner →
    pathText position = pathText other → position = other

/-- A position with these types and this flag is written as the text. -/
def FieldSig.Writes (sig : FieldSig) (path : String) (types : Finset String)
    (optional : Bool) : Prop :=
  ∃ position, sig.Has position types optional ∧ pathText position = path

def FieldSig.HasToken (unicode : Unicode) (sig : FieldSig) (token : String) : Prop :=
  ∃ position node, sig.Below position node ∧ token ∈ lastTokens unicode position

/-- Both sides write the same, have the same tokens and are equally deep. -/
structure ReadAlike (unicode : Unicode) (left right : FieldSig) : Prop where
  depth : maxDepth left = maxDepth right
  tokens : ∀ token, left.HasToken unicode token ↔ right.HasToken unicode token
  writes : ∀ path types optional, left.Writes path types optional ↔ right.Writes path types optional

/-- What is written alike on both sides is the same position. -/
def TextsAgree (left right : FieldSig) : Prop :=
  ∀ position node other inner, left.Below position node → right.Below other inner →
    pathText position = pathText other → position = other

/-! ## Readable signatures -/

section

variable {unicode : Unicode} {sig left right : FieldSig}

theorem FieldSig.Below.unique {position : Position} {node inner : FieldSig}
    (hnode : sig.Below position node) (hinner : sig.Below position inner) : node = inner :=
  Option.some.inj (hnode.2.symm.trans hinner.2)

theorem FieldSig.Readable.recorded (hsig : sig.Readable) {position : Position} {node : FieldSig} :
    sig.Recorded position node ↔ sig.Below position node :=
  and_iff_left_of_imp fun hbelow ↦ hsig.unnested position node hbelow

theorem FieldSig.Readable.node_eq (hsig : sig.Readable) {position other : Position}
    {node inner : FieldSig} (hnode : sig.Below position node) (hinner : sig.Below other inner)
    (htext : pathText position = pathText other) : node = inner := by
  obtain rfl := hsig.injective position node other inner hnode hinner htext
  exact hnode.unique hinner

theorem getEntry_of_below (hsig : sig.Ordered) (hread : sig.Readable) {position : Position}
    {node : FieldSig} (hnode : sig.Below position node) :
    getEntry (extractFeatures unicode sig).paths (pathText position) = some node.types := by
  have hkey : pathText position ∈ (extractFeatures unicode sig).paths.map Prod.fst :=
    (mem_paths unicode hsig _).mpr ⟨position, node, hread.recorded.mpr hnode, rfl⟩
  obtain ⟨⟨key, types⟩, hentry, rfl : key = pathText position⟩ := List.mem_map.mp hkey
  have hget : getEntry (extractFeatures unicode sig).paths (pathText position) = some types :=
    (sortedKeys_extractFeatures unicode sig).mem_iff.mp hentry
  obtain ⟨other, inner, hinner, htext, rfl⟩ := exists_recorded_of_getEntry unicode hsig hget
  rw [hget, hread.node_eq hnode hinner.1 htext.symm]

theorem mem_required_of_below (hsig : sig.Ordered) (hread : sig.Readable) {position : Position}
    {node : FieldSig} (hnode : sig.Below position node) :
    pathText position ∈ (extractFeatures unicode sig).required ↔ node.optional = false := by
  rw [mem_required unicode hsig]
  constructor
  · rintro ⟨other, inner, hinner, hoptional, htext⟩
    rw [hread.node_eq hnode hinner.1 htext.symm, hoptional]
  · intro hoptional
    exact ⟨position, node, hread.recorded.mpr hnode, hoptional, rfl⟩

/-- The features say what a readable signature writes. -/
theorem writes_iff (hsig : sig.Ordered) (hread : sig.Readable) {path : String}
    {types : Finset String} {optional : Bool} :
    sig.Writes path types optional ↔
      getEntry (extractFeatures unicode sig).paths path = some types ∧
        (path ∈ (extractFeatures unicode sig).required ↔ optional = false) := by
  constructor
  · rintro ⟨position, ⟨node, hnode, rfl, rfl⟩, rfl⟩
    exact ⟨getEntry_of_below hsig hread hnode, mem_required_of_below hsig hread hnode⟩
  · rintro ⟨hget, hrequired⟩
    obtain ⟨position, node, hnode, rfl, rfl⟩ := exists_recorded_of_getEntry unicode hsig hget
    have hoptional : node.optional = false ↔ optional = false :=
      (mem_required_of_below hsig hread hnode.1).symm.trans hrequired
    refine ⟨position, ⟨node, hnode.1, rfl, ?_⟩, rfl⟩
    exact Bool.eq_iff_iff.mpr (by simpa using not_congr hoptional)

theorem getEntry_eq_some_iff (hsig : sig.Ordered) (hread : sig.Readable) {path : String}
    {types : Finset String} :
    getEntry (extractFeatures unicode sig).paths path = some types ↔
      ∃ optional, sig.Writes path types optional := by
  constructor
  · intro hget
    obtain ⟨position, node, hnode, rfl, rfl⟩ := exists_recorded_of_getEntry unicode hsig hget
    exact ⟨node.optional, position, ⟨node, hnode.1, rfl, rfl⟩, rfl⟩
  · rintro ⟨_, position, ⟨node, hnode, rfl, rfl⟩, rfl⟩
    exact getEntry_of_below hsig hread hnode

theorem hasToken_iff (hsig : sig.Ordered) (hread : sig.Readable) {token : String} :
    sig.HasToken unicode token ↔ token ∈ (extractFeatures unicode sig).nameTokens := by
  rw [mem_nameTokens unicode hsig]
  simp only [hread.recorded, FieldSig.HasToken]

/-- Without nested elements and with distinct texts each position has an entry of its own. -/
theorem FieldSig.Readable.hasOwnEntries (hsig : sig.Ordered) (hread : sig.Readable) :
    HasOwnEntries unicode sig :=
  ⟨pathText, hread.injective, fun _ _ hnode ↦
    ⟨getEntry_of_below hsig hread hnode, mem_required_of_below hsig hread hnode⟩⟩

/-- With as many entries as positions every position is written, and under its own text. -/
theorem HasOwnEntries.readable (hsig : sig.Ordered) (hown : HasOwnEntries unicode sig) :
    sig.Readable := by
  obtain ⟨own, hinj, hentry⟩ := hown
  have hthings (position : Position) :
      position ∈ sig.positions.toFinset.erase [] ↔ ∃ node, sig.Below position node := by
    rw [Finset.mem_erase, List.mem_toFinset, FieldSig.mem_positions hsig,
      Option.isSome_iff_exists, ← exists_and_left]
    rfl
  have hwritten (position : Position) :
      position ∈ ((visits [] sig).map Prod.fst).toFinset ↔
        ∃ node, sig.Recorded position node := by
    rw [List.mem_toFinset, List.mem_map]
    simp only [Prod.exists, mem_visits_root hsig, FieldSig.Recorded, exists_and_right,
      exists_eq_right]
  have hsub : ((visits [] sig).map Prod.fst).toFinset ⊆ sig.positions.toFinset.erase [] := by
    intro position hposition
    obtain ⟨node, hnode⟩ := (hwritten position).mp hposition
    exact (hthings position).mpr ⟨node, hnode.1⟩
  have hinjOn : Set.InjOn own (sig.positions.toFinset.erase []) := by
    intro position hposition other hother hnames
    obtain ⟨node, hnode⟩ := (hthings position).mp hposition
    obtain ⟨inner, hinner⟩ := (hthings other).mp hother
    exact hinj position node other inner hnode hinner hnames
  have howned : ∀ position ∈ sig.positions.toFinset.erase [],
      own position ∈ ((visits [] sig).map Prod.fst).toFinset.image pathText := by
    intro position hposition
    obtain ⟨node, hnode⟩ := (hthings position).mp hposition
    obtain ⟨other, inner, hinner, htext, -⟩ :=
      exists_recorded_of_getEntry unicode hsig (hentry position node hnode).1
    exact Finset.mem_image.mpr ⟨other, (hwritten other).mpr ⟨inner, hinner⟩, htext⟩
  obtain ⟨hall, htexts⟩ := eq_of_own_names hsub hinjOn howned
  constructor
  · intro position node hnode
    have hposition := (hthings position).mpr ⟨node, hnode⟩
    rw [← hall] at hposition
    obtain ⟨_, hrecorded⟩ := (hwritten position).mp hposition
    exact hrecorded.2
  · intro position node other inner hnode hinner htext
    exact htexts ((hthings position).mpr ⟨node, hnode⟩) ((hthings other).mpr ⟨inner, hinner⟩) htext

/-! ## Distance and texts -/

/-- A set of the features has the texts of the positions whose types and flag are as asked. -/
theorem mem_texts_iff (hread : sig.Readable) {asks : Finset String → Bool → Prop} {path : String} :
    (∃ position node, sig.Recorded position node ∧ asks node.types node.optional ∧
        pathText position = path) ↔
      ∃ types optional, sig.Writes path types optional ∧ asks types optional := by
  constructor
  · rintro ⟨position, node, hnode, hasks, rfl⟩
    exact ⟨_, _, ⟨position, ⟨node, hnode.1, rfl, rfl⟩, rfl⟩, hasks⟩
  · rintro ⟨_, _, ⟨position, ⟨node, hnode, rfl, rfl⟩, rfl⟩, hasks⟩
    exact ⟨position, node, hread.recorded.mpr hnode, hasks, rfl⟩

theorem ReadAlike.texts_congr (halike : ReadAlike unicode left right) (hleft : left.Readable)
    (hright : right.Readable) (asks : Finset String → Bool → Prop) (path : String) :
    (∃ position node, left.Recorded position node ∧ asks node.types node.optional ∧
        pathText position = path) ↔
      ∃ position node, right.Recorded position node ∧ asks node.types node.optional ∧
        pathText position = path := by
  rw [mem_texts_iff hleft, mem_texts_iff hright]
  simp only [halike.writes]

/-- Signatures that read alike have the same features. -/
theorem ReadAlike.extractFeatures_eq (halike : ReadAlike unicode left right)
    (hleft : left.Ordered) (hright : right.Ordered) (hreadLeft : left.Readable)
    (hreadRight : right.Readable) :
    extractFeatures unicode left = extractFeatures unicode right := by
  have hpaths : (extractFeatures unicode left).paths = (extractFeatures unicode right).paths := by
    apply (sortedKeys_extractFeatures unicode left).ext (sortedKeys_extractFeatures unicode right)
    intro path
    ext types
    change getEntry _ path = some types ↔ getEntry _ path = some types
    rw [getEntry_eq_some_iff hleft hreadLeft, getEntry_eq_some_iff hright hreadRight]
    simp only [halike.writes]
  have hrequired :
      (extractFeatures unicode left).required = (extractFeatures unicode right).required := by
    ext path
    rw [mem_required unicode hleft, mem_required unicode hright]
    exact halike.texts_congr hreadLeft hreadRight (fun _ optional ↦ optional = false) path
  have hnullable :
      (extractFeatures unicode left).nullable = (extractFeatures unicode right).nullable := by
    ext path
    rw [mem_nullable unicode hleft, mem_nullable unicode hright]
    exact halike.texts_congr hreadLeft hreadRight (fun types _ ↦ "null" ∈ types) path
  have harrays :
      (extractFeatures unicode left).arrayPaths = (extractFeatures unicode right).arrayPaths := by
    ext path
    rw [mem_arrayPaths unicode hleft, mem_arrayPaths unicode hright]
    exact halike.texts_congr hreadLeft hreadRight (fun types _ ↦ "array" ∈ types) path
  have hobjects :
      (extractFeatures unicode left).objectPaths = (extractFeatures unicode right).objectPaths := by
    ext path
    rw [mem_objectPaths unicode hleft, mem_objectPaths unicode hright]
    exact halike.texts_congr hreadLeft hreadRight (fun types _ ↦ "object" ∈ types) path
  have htokens :
      (extractFeatures unicode left).nameTokens = (extractFeatures unicode right).nameTokens := by
    ext token
    rw [← hasToken_iff hleft hreadLeft, ← hasToken_iff hright hreadRight, halike.tokens]
  have hdepth : (extractFeatures unicode left).depth = (extractFeatures unicode right).depth := by
    rw [depth_extractFeatures, depth_extractFeatures, halike.depth]
  exact StructuralFeatures.ext hpaths hrequired hnullable harrays hobjects htokens hdepth

/-- Readable signatures have no distance exactly if they read alike. -/
theorem total_eq_zero_iff_readAlike (hleft : left.Ordered) (hright : right.Ordered)
    (hreadLeft : left.Readable) (hreadRight : right.Readable) :
    (computeDistance (extractFeatures unicode left) (extractFeatures unicode right)).total = 0 ↔
      ReadAlike unicode left right := by
  rw [total_computeDistance_eq_zero (sortedKeys_extractFeatures unicode left)
    (sortedKeys_extractFeatures unicode right)]
  constructor
  · intro heq
    constructor
    · rw [← depth_extractFeatures unicode left, heq, depth_extractFeatures]
    · intro token
      rw [hasToken_iff hleft hreadLeft, hasToken_iff hright hreadRight, heq]
    · intro path types optional
      rw [writes_iff hleft hreadLeft, writes_iff hright hreadRight, heq]
  · intro halike
    exact halike.extractFeatures_eq hleft hright hreadLeft hreadRight

/-! ## The same structure -/

theorem SameBelow.below_iff (hsame : SameBelow left right) (position : Position) :
    (∃ node, left.Below position node) ↔ ∃ node, right.Below position node := by
  have hhas (sig : FieldSig) :
      (∃ node, sig.Below position node) ↔ ∃ types optional, sig.Has position types optional := by
    constructor
    · rintro ⟨node, hnode⟩
      exact ⟨_, _, node, hnode, rfl, rfl⟩
    · rintro ⟨_, _, node, hnode, -⟩
      exact ⟨node, hnode⟩
  rw [hhas, hhas]
  simp only [hsame position]

/-- With the same positions, types and flags below the root, signatures read alike. -/
theorem SameBelow.readAlike (hsame : SameBelow left right) (hleft : left.Ordered)
    (hright : right.Ordered) : ReadAlike unicode left right := by
  constructor
  · apply FieldSig.maxDepth_congr hleft hright
    intro position
    by_cases hroot : position = []
    · rw [hroot]
      rfl
    · rw [Option.isSome_iff_exists, Option.isSome_iff_exists]
      have hbelow := hsame.below_iff position
      simpa only [FieldSig.Below, hroot, ne_eq, not_false_eq_true, true_and] using hbelow
  · intro token
    simp only [FieldSig.HasToken, exists_and_right, hsame.below_iff]
  · intro path types optional
    simp only [FieldSig.Writes, hsame _ types optional]

theorem TextsAgree.symm (htexts : TextsAgree left right) : TextsAgree right left :=
  fun _ _ _ _ hnode hinner htext ↦ (htexts _ _ _ _ hinner hnode htext.symm).symm

/-- Where the texts agree, what is written for a position on the other side is at that position. -/
theorem TextsAgree.has (htexts : TextsAgree left right) {position : Position}
    {types : Finset String} {optional : Bool}
    (hwrites : left.Writes (pathText position) types optional →
      right.Writes (pathText position) types optional)
    (hhas : left.Has position types optional) : right.Has position types optional := by
  obtain ⟨other, hother, htext⟩ := hwrites ⟨position, hhas, rfl⟩
  obtain ⟨node, hnode, -⟩ := hhas
  obtain ⟨inner, hinner, -⟩ := id hother
  rwa [htexts position node other inner hnode hinner htext.symm]

theorem ReadAlike.sameBelow (halike : ReadAlike unicode left right)
    (htexts : TextsAgree left right) : SameBelow left right :=
  fun position types optional ↦
    ⟨htexts.has (halike.writes (pathText position) types optional).mp,
      htexts.symm.has (halike.writes (pathText position) types optional).mpr⟩

/-- Where both sides are the same below the root, one readable side makes their texts agree. -/
theorem SameBelow.textsAgree (hsame : SameBelow left right) (hright : right.Readable) :
    TextsAgree left right := by
  intro position node other inner hnode hinner htext
  obtain ⟨same, hother⟩ := (hsame.below_iff position).mp ⟨node, hnode⟩
  exact hright.injective position same other inner hother hinner htext

/-- The features keep the structure of two readable signatures whose texts agree if they read
alike. -/
theorem keepsStructure_of_readable (hleft : left.Ordered) (hright : right.Ordered)
    (hreadLeft : left.Readable) (hreadRight : right.Readable)
    (htexts : ReadAlike unicode left right → TextsAgree left right) :
    KeepsStructure unicode left right := by
  refine ⟨hreadLeft.hasOwnEntries hleft, hreadRight.hasOwnEntries hright, ?_⟩
  rw [total_eq_zero_iff_readAlike hleft hright hreadLeft hreadRight]
  exact ⟨fun halike ↦ halike.sameBelow (htexts halike), fun hsame ↦ hsame.readAlike hleft hright⟩

end

/-! ## Plain keys -/

/-- A key with something in it and neither of the characters that begin what follows a key. -/
def Step.Plain : Step → Prop
  | .field name => name ≠ "" ∧ '.' ∉ name.toList ∧ '[' ∉ name.toList
  | .elem => True

instance : DecidablePred Step.Plain
  | .field name => inferInstanceAs (Decidable (name ≠ "" ∧ '.' ∉ name.toList ∧ '[' ∉ name.toList))
  | .elem => inferInstanceAs (Decidable True)

instance : DecidablePred Unnested := fun position ↦
  inferInstanceAs (Decidable (position.IsChain _))

def FieldSig.Plain (sig : FieldSig) : Prop :=
  ∀ position ∈ sig.positions, Unnested position ∧ ∀ step ∈ position, step.Plain

instance (sig : FieldSig) : Decidable sig.Plain :=
  inferInstanceAs (Decidable (∀ position ∈ sig.positions, _))

/-- What a step adds to a text that is not empty. -/
def stepCode : Step → List Char
  | .field name => '.' :: name.toList
  | .elem => ['[', ']']

def IsMark (char : Char) : Prop := char = '.' ∨ char = '['

theorem marked_stepCode {step : Step} (hstep : step.Plain) : Marked IsMark (stepCode step) := by
  cases step with
  | field name =>
      refine ⟨'.', name.toList, rfl, .inl rfl, fun char hchar hmark ↦ ?_⟩
      obtain rfl | rfl := hmark
      · exact hstep.2.1 hchar
      · exact hstep.2.2 hchar
  | elem => exact ⟨'[', [']'], rfl, .inr rfl, by simp [IsMark]⟩

theorem stepCode_injective : Function.Injective stepCode := by
  intro step other heq
  match step, other with
  | .field name, .field another =>
    rw [String.toList_injective (List.cons.inj heq).2]
  | .field name, .elem => simp [stepCode] at heq
  | .elem, .field another => simp [stepCode] at heq
  | .elem, .elem => rfl

theorem toList_foldl_pathStep (position : Position) {path : String} (hpath : path ≠ "") :
    (position.foldl pathStep path).toList = path.toList ++ position.flatMap stepCode := by
  induction position generalizing path with
  | nil => simp
  | cons step position ih =>
      have hcode : (pathStep path step).toList = path.toList ++ stepCode step := by
        cases step with
        | field name => simp [pathStep, childPath, hpath, stepCode]
        | elem => simp [pathStep, stepCode]
      have hne : pathStep path step ≠ "" := by
        intro hempty
        rw [hempty] at hcode
        cases step <;> simp [stepCode] at hcode
      rw [List.foldl_cons, ih hne, hcode, List.flatMap_cons, List.append_assoc]

theorem toList_pathText_field {name : String} (hname : name ≠ "") (rest : Position) :
    (pathText (.field name :: rest)).toList = name.toList ++ rest.flatMap stepCode :=
  toList_foldl_pathStep rest hname

theorem toList_pathText_elem (rest : Position) :
    (pathText (.elem :: rest)).toList = '[' :: ']' :: rest.flatMap stepCode :=
  toList_foldl_pathStep rest (by decide)

/-- A text of plain steps is that of one position. -/
theorem pathText_inj {position other : Position} (hposition : ∀ step ∈ position, step.Plain)
    (hother : ∀ step ∈ other, step.Plain) (hne : position ≠ []) (hne' : other ≠ [])
    (htext : pathText position = pathText other) : position = other := by
  have hmarked {steps : Position} (hsteps : ∀ step ∈ steps, step.Plain) :
      ∀ step ∈ steps, Marked IsMark (stepCode step) :=
    fun step hstep ↦ marked_stepCode (hsteps step hstep)
  have hmixed {name : String} {rest others : Position} (hname : (Step.field name).Plain) :
      pathText (.field name :: rest) ≠ pathText (.elem :: others) := by
    intro heq
    have hchars := congrArg String.toList heq
    rw [toList_pathText_field hname.1, toList_pathText_elem] at hchars
    cases hlist : name.toList with
    | nil => exact hname.1 (String.toList_eq_nil_iff.mp hlist)
    | cons char chars =>
        rw [hlist, List.cons_append] at hchars
        refine hname.2.2 ?_
        rw [hlist, (List.cons.inj hchars).1]
        exact List.mem_cons_self
  suffices hcodes : position.flatMap stepCode = other.flatMap stepCode from
    flatMap_inj_of_marked (hmarked hposition) (hmarked hother)
      (fun _ _ _ _ hcode ↦ stepCode_injective hcode) hcodes
  match position, other with
  | [], _ => exact absurd rfl hne
  | _ :: _, [] => exact absurd rfl hne'
  | .field name :: rest, .elem :: others =>
    exact absurd htext (hmixed (hposition _ List.mem_cons_self))
  | .elem :: rest, .field name :: others =>
    exact absurd htext.symm (hmixed (hother _ List.mem_cons_self))
  | .field name :: rest, .field another :: others =>
    have hchars := congrArg String.toList htext
    rw [toList_pathText_field (hposition _ List.mem_cons_self).1,
      toList_pathText_field (hother _ List.mem_cons_self).1] at hchars
    exact congrArg ('.' :: ·) hchars
  | .elem :: rest, .elem :: others =>
    have hchars := congrArg String.toList htext
    rwa [toList_pathText_elem, toList_pathText_elem] at hchars

section

variable {unicode : Unicode} {sig left right : FieldSig}

theorem FieldSig.Plain.of_below (hplain : sig.Plain) (hsig : sig.Ordered) {position : Position}
    {node : FieldSig} (hnode : sig.Below position node) :
    Unnested position ∧ ∀ step ∈ position, step.Plain :=
  hplain position ((FieldSig.mem_positions hsig).mpr (Option.isSome_iff_exists.mpr ⟨node, hnode.2⟩))

theorem FieldSig.Plain.textsAgree (hleft : left.Plain) (hright : right.Plain)
    (hleftOrdered : left.Ordered) (hrightOrdered : right.Ordered) : TextsAgree left right :=
  fun _ _ _ _ hnode hinner htext ↦ pathText_inj (hleft.of_below hleftOrdered hnode).2
    (hright.of_below hrightOrdered hinner).2 hnode.1 hinner.1 htext

theorem FieldSig.Plain.readable (hplain : sig.Plain) (hsig : sig.Ordered) : sig.Readable :=
  ⟨fun _ _ hnode ↦ (hplain.of_below hsig hnode).1, hplain.textsAgree hplain hsig hsig⟩

/-- The features keep the structure of signatures with plain keys and no nested elements. -/
theorem keepsStructure_of_plain (hleft : left.Ordered) (hright : right.Ordered)
    (hplainLeft : left.Plain) (hplainRight : right.Plain) : KeepsStructure unicode left right :=
  keepsStructure_of_readable hleft hright (hplainLeft.readable hleft) (hplainRight.readable hright)
    fun _ ↦ hplainLeft.textsAgree hplainRight hleft hright

end

/-! ## Kept and lost structure -/

def leaf (type : String) : FieldSig := ⟨false, {type}, [], none⟩

def arrayOf (elem : FieldSig) : FieldSig := ⟨false, {"array"}, [], some elem⟩

def rowsOf (elem : FieldSig) : FieldSig := ⟨false, {"object"}, [("rows", arrayOf elem)], none⟩

/-- One field is below another, and one has the text of a field below it. -/
def dotted (below beside : String) : FieldSig :=
  ⟨false, {"object"}, [("x", ⟨false, {"object"}, [(below, leaf "integer")], none⟩),
    ("x." ++ beside, leaf "integer")], none⟩

theorem ordered_leaf (type : String) : (leaf type).Ordered :=
  .node .nil (fun _ hchild ↦ nomatch hchild) fun _ helem ↦ nomatch helem

theorem ordered_arrayOf {elem : FieldSig} (helem : elem.Ordered) : (arrayOf elem).Ordered :=
  .node .nil (fun _ hchild ↦ nomatch hchild) fun _ hsome ↦ Option.some.inj hsome ▸ helem

theorem ordered_rowsOf {elem : FieldSig} (helem : elem.Ordered) : (rowsOf elem).Ordered :=
  .node (List.pairwise_singleton _ _)
    (List.forall_mem_singleton.mpr (ordered_arrayOf helem)) fun _ hsome ↦ nomatch hsome

theorem ordered_dotted {below beside : String} (hkeys : "x" < "x." ++ beside) :
    (dotted below beside).Ordered := by
  have hinner : FieldSig.Ordered ⟨false, {"object"}, [(below, leaf "integer")], none⟩ :=
    .node (List.pairwise_singleton _ _)
      (List.forall_mem_singleton.mpr (ordered_leaf "integer")) fun _ hsome ↦ nomatch hsome
  refine .node ?_ ?_ fun _ hsome ↦ nomatch hsome
  · exact List.pairwise_pair.mpr hkeys
  · exact List.forall_mem_cons.mpr
      ⟨hinner, List.forall_mem_singleton.mpr (ordered_leaf "integer")⟩

/-- Two ordered signatures that differ below the root and have no distance. -/
structure Confused (unicode : Unicode) (left right : FieldSig) : Prop where
  ordered_left : left.Ordered
  ordered_right : right.Ordered
  total_eq_zero :
    (computeDistance (extractFeatures unicode left) (extractFeatures unicode right)).total = 0
  not_sameBelow : ¬SameBelow left right

/-- What arrays of arrays hold is in no feature. -/
theorem confused_rowsOf : Confused .ascii (rowsOf (arrayOf (leaf "integer")))
    (rowsOf (arrayOf (leaf "string"))) := by
  constructor
  · exact ordered_rowsOf (ordered_arrayOf (ordered_leaf "integer"))
  · exact ordered_rowsOf (ordered_arrayOf (ordered_leaf "string"))
  · exact total_computeDistance_self _
  · intro hsame
    obtain ⟨node, hnode, htypes, -⟩ :=
      (hsame [.field "rows", .elem, .elem] {"integer"} false).mp
        ⟨leaf "integer", ⟨by simp, rfl⟩, rfl, rfl⟩
    obtain rfl : leaf "string" = node := Option.some.inj hnode.2
    exact absurd htypes (by decide)

/-- A key with a dot is written as the field of another. -/
theorem confused_dotted : Confused .ascii (dotted "y" "z") (dotted "z" "y") := by
  constructor
  · exact ordered_dotted (by decide +kernel)
  · exact ordered_dotted (by decide +kernel)
  · have heq : extractFeatures .ascii (dotted "y" "z") =
        extractFeatures .ascii (dotted "z" "y") := by
      ext1 <;> decide +kernel
    rw [heq]
    exact total_computeDistance_self _
  · intro hsame
    obtain ⟨node, hnode, -⟩ := (hsame [.field "x", .field "y"] {"integer"} false).mp
      ⟨leaf "integer", ⟨by simp, rfl⟩, rfl, rfl⟩
    exact absurd hnode.2 (by simp [dotted, FieldSig.child?, getEntry])

/-- The features keep the structure of two signatures exactly if both are readable and no text
stands for different positions of two that read alike. -/
theorem keepsStructure_iff (unicode : Unicode) {left right : FieldSig} (hleft : left.Ordered)
    (hright : right.Ordered) :
    KeepsStructure unicode left right ↔ left.Readable ∧ right.Readable ∧
      (ReadAlike unicode left right → TextsAgree left right) := by
  constructor
  · rintro ⟨hownLeft, hownRight, htotal⟩
    have hreadLeft := hownLeft.readable hleft
    have hreadRight := hownRight.readable hright
    rw [total_eq_zero_iff_readAlike hleft hright hreadLeft hreadRight] at htotal
    exact ⟨hreadLeft, hreadRight, fun halike ↦ (htotal.mp halike).textsAgree hreadRight⟩
  · rintro ⟨hreadLeft, hreadRight, htexts⟩
    exact keepsStructure_of_readable hleft hright hreadLeft hreadRight htexts

theorem keepsStructure_iff_rowsOf :
    KeepsStructure .ascii (rowsOf (leaf "integer")) (rowsOf (leaf "string")) ∧
      ¬KeepsStructure .ascii (rowsOf (arrayOf (leaf "integer")))
        (rowsOf (arrayOf (leaf "string"))) := by
  have hint := ordered_rowsOf (ordered_leaf "integer")
  have hstring := ordered_rowsOf (ordered_leaf "string")
  have hints : (rowsOf (leaf "integer")).Plain := by decide +kernel
  have hstrings : (rowsOf (leaf "string")).Plain := by decide +kernel
  constructor
  · exact (keepsStructure_iff .ascii hint hstring).mpr ⟨hints.readable hint,
      hstrings.readable hstring, fun _ ↦ hints.textsAgree hstrings hint hstring⟩
  · rw [keepsStructure_iff .ascii confused_rowsOf.ordered_left confused_rowsOf.ordered_right]
    intro hkept
    have hnested : Unnested [.field "rows", .elem, .elem] :=
      hkept.1.unnested _ (leaf "integer") ⟨by simp, rfl⟩
    exact absurd hnested (by decide)

/-- The features tell neither nested arrays apart nor dotted keys from fields. -/
theorem structure_lost :
    Confused .ascii (rowsOf (arrayOf (leaf "integer"))) (rowsOf (arrayOf (leaf "string"))) ∧
      Confused .ascii (dotted "y" "z") (dotted "z" "y") :=
  ⟨confused_rowsOf, confused_dotted⟩

end Deblob.Retrieval
