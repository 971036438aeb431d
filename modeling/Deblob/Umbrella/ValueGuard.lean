import Deblob.Lib.PairScan
import Deblob.Retrieval.Distance
import Deblob.Umbrella.KeyTexts

/-!
# The value guard

The members of a consolidated field are checked by their value evidence. Disjoint buckets of two
supported members contradict each other when all members carry the same unit, and nothing else
does. Names only corroborate.
-/

namespace Deblob.Umbrella

open Lib Deblob.Monoid Retrieval

def guardMinSupport : ℕ := 30

def genericNames : List String :=
  ["id", "value", "val", "type", "status", "data", "name", "key", "code", "kind"]

inductive ValueVerdict where
  | compatible
  | contradictory
  | unknown
  | notComparable
deriving DecidableEq

inductive CauseCode where
  | cfidExact
  | typeCompatible
  | nameCorroborated
  | valueProfileCompatible
  | valueProfileUnknown
  | valueProfileNotComparable
  | valueProfileContradiction
deriving DecidableEq

/-- The evidence of one member for a consolidated field. -/
structure MemberEvidence where
  name : String
  unit : Option String
  mask : UInt8
  numericCount : ℕ
  hasProfile : Bool
deriving DecidableEq

structure FieldGuard where
  valueVerdict : ValueVerdict
  nameCorroborated : Bool
  causes : List CauseCode
deriving DecidableEq

/-! ## Verdicts -/

/-- All members carry the unit of the first one. -/
def unitsComparable : List MemberEvidence → Bool
  | [] => true
  | first :: members => (first :: members).all fun member ↦ member.unit = first.unit

/-- The member has a profile and enough numbers behind its mask. -/
def MemberEvidence.supported (minSupport : ℕ) (member : MemberEvidence) : Bool :=
  member.hasProfile && member.mask ≠ 0 && minSupport ≤ member.numericCount

/-- The members share no bucket. -/
def MemberEvidence.disjoint (left right : MemberEvidence) : Bool := left.mask &&& right.mask == 0

def valueVerdict (members : List MemberEvidence) (minSupport : ℕ) : ValueVerdict :=
  if members.length < 2 then .unknown
  else if !unitsComparable members then .notComparable
  else
    let numeric := members.filter (·.supported minSupport)
    if numeric.length < 2 then .unknown
    else if hasConflict MemberEvidence.disjoint numeric then .contradictory
    else .compatible

theorem disjoint_comm (left right : MemberEvidence) : left.disjoint right = right.disjoint left := by
  rw [MemberEvidence.disjoint, MemberEvidence.disjoint, UInt8.and_comm]

theorem not_disjoint_self {minSupport : ℕ} {member : MemberEvidence}
    (hsupported : member.supported minSupport = true) : member.disjoint member = false := by
  rw [MemberEvidence.supported] at hsupported
  rw [MemberEvidence.disjoint, UInt8.and_self]
  grind

theorem unitsComparable_iff (members : List MemberEvidence) :
    unitsComparable members = true ↔
      ∀ left ∈ members, ∀ right ∈ members, left.unit = right.unit := by
  cases members with
  | nil => simp [unitsComparable]
  | cons first members =>
      rw [unitsComparable, List.all_eq_true]
      constructor
      · intro hfirst left hleft right hright
        calc
          left.unit = first.unit := of_decide_eq_true (hfirst left hleft)
          _ = right.unit := (of_decide_eq_true (hfirst right hright)).symm
      · intro hsame member hmember
        exact decide_eq_true (hsame member hmember first List.mem_cons_self)

theorem unitsComparable_perm {left right : List MemberEvidence} (hperm : left.Perm right) :
    unitsComparable left = unitsComparable right := by
  rw [Bool.eq_iff_iff, unitsComparable_iff, unitsComparable_iff]
  simp only [hperm.mem_iff]

theorem valueVerdict_perm {left right : List MemberEvidence} (hperm : left.Perm right)
    (minSupport : ℕ) : valueVerdict left minSupport = valueVerdict right minSupport := by
  have hnumeric := hperm.filter (·.supported minSupport)
  simp only [valueVerdict, hperm.length_eq, unitsComparable_perm hperm, hnumeric.length_eq,
    hasConflict_perm disjoint_comm hnumeric]

/-- Two supported members of which no bucket is shared. -/
def HasDisjointPair (members : List MemberEvidence) (minSupport : ℕ) : Prop :=
  ∃ left ∈ members, ∃ right ∈ members, left.supported minSupport = true ∧
    right.supported minSupport = true ∧ left.mask &&& right.mask = 0

theorem hasConflict_supported_iff (members : List MemberEvidence) (minSupport : ℕ) :
    hasConflict MemberEvidence.disjoint (members.filter (·.supported minSupport)) = true ↔
      HasDisjointPair members minSupport := by
  rw [hasConflict_eq_true_iff disjoint_comm
    fun member hmember ↦ not_disjoint_self (List.mem_filter.mp hmember).2]
  simp only [List.mem_filter, MemberEvidence.disjoint, beq_iff_eq, HasDisjointPair]
  grind

/-- The members of a disjoint pair are two. -/
theorem HasDisjointPair.two_le_length {members : List MemberEvidence} {minSupport : ℕ}
    (hpair : HasDisjointPair members minSupport) :
    2 ≤ (members.filter (·.supported minSupport)).length := by
  rcases hpair with ⟨left, hleft, right, hright, hleftSupport, hrightSupport, hmask⟩
  have hne : left ≠ right := by
    rintro rfl
    have hshared := not_disjoint_self hleftSupport
    rw [MemberEvidence.disjoint, hmask] at hshared
    exact absurd hshared (by decide)
  have hleft := List.mem_filter.mpr ⟨hleft, hleftSupport⟩
  have hright := List.mem_filter.mpr ⟨hright, hrightSupport⟩
  by_contra hshort
  match hnumeric : members.filter (·.supported minSupport) with
  | [] => simp [hnumeric] at hleft
  | [only] => grind
  | _ :: _ :: _ => grind

theorem valueVerdict_eq_contradictory_iff (members : List MemberEvidence) (minSupport : ℕ) :
    valueVerdict members minSupport = .contradictory ↔
      (∀ left ∈ members, ∀ right ∈ members, left.unit = right.unit) ∧
        HasDisjointPair members minSupport := by
  rw [← unitsComparable_iff, ← hasConflict_supported_iff]
  constructor
  · intro hverdict
    unfold valueVerdict at hverdict
    grind
  · rintro ⟨hunits, hconflict⟩
    have hnumeric := ((hasConflict_supported_iff members minSupport).mp hconflict).two_le_length
    have hmembers := hnumeric.trans (List.length_filter_le _ _)
    unfold valueVerdict
    grind

/-- Members without support are no side of a disjoint pair. -/
theorem HasDisjointPair.of_append_unsupported {members weak : List MemberEvidence}
    {minSupport : ℕ} (hweak : ∀ member ∈ weak, member.supported minSupport = false)
    (hpair : HasDisjointPair (members ++ weak) minSupport) : HasDisjointPair members minSupport := by
  rcases hpair with ⟨left, hleft, right, hright, hleftSupport, hrightSupport, hmask⟩
  have hstrong {member : MemberEvidence} (hmember : member ∈ members ++ weak)
      (hsupported : member.supported minSupport = true) : member ∈ members := by
    rcases List.mem_append.mp hmember with hmember | hmember
    · exact hmember
    · exact absurd hsupported (Bool.eq_false_iff.mp (hweak member hmember))
  exact ⟨left, hstrong hleft hleftSupport, right, hstrong hright hrightSupport, hleftSupport,
    hrightSupport, hmask⟩

/-- The verdict does not depend on the order of the members, it is a contradiction exactly when all
members carry the same unit and two supported ones share no bucket, and members without support
never make it one. -/
theorem valueVerdict_one_sided (members : List MemberEvidence) (minSupport : ℕ) :
    (∀ other, other.Perm members →
      valueVerdict other minSupport = valueVerdict members minSupport) ∧
    (valueVerdict members minSupport = .contradictory ↔
      (∀ left ∈ members, ∀ right ∈ members, left.unit = right.unit) ∧
        HasDisjointPair members minSupport) ∧
    ∀ weak, (∀ member ∈ weak, member.supported minSupport = false) →
      valueVerdict members minSupport ≠ .contradictory →
      valueVerdict (members ++ weak) minSupport ≠ .contradictory := by
  refine ⟨fun other hperm ↦ valueVerdict_perm hperm minSupport,
    valueVerdict_eq_contradictory_iff members minSupport, ?_⟩
  intro weak hweak hmembers happended
  rw [Ne, valueVerdict_eq_contradictory_iff] at hmembers
  rcases (valueVerdict_eq_contradictory_iff _ _).mp happended with ⟨hunits, hpair⟩
  refine hmembers ⟨?_, hpair.of_append_unsupported hweak⟩
  intro left hleft right hright
  exact hunits left (List.mem_append_left _ hleft) right (List.mem_append_left _ hright)

/-- Two supported members with a common bucket. -/
def overlappingMembers : List MemberEvidence :=
  [⟨"retailPrice", none, 20, 5000, true⟩, ⟨"unitPrice", none, 4, 5000, true⟩]

theorem valueVerdict_one_sided_overlapping :
    valueVerdict overlappingMembers.reverse guardMinSupport =
      valueVerdict overlappingMembers guardMinSupport ∧
    valueVerdict (overlappingMembers ++ [⟨"price", none, 2, 5, true⟩]) guardMinSupport ≠
      .contradictory := by
  have hguard := valueVerdict_one_sided overlappingMembers guardMinSupport
  exact ⟨hguard.1 _ (List.reverse_perm _), hguard.2.2 _ (by decide) (by decide)⟩

/-- Two supported members without a unit share no bucket, and a third one carries a unit. -/
def mixedUnits : List MemberEvidence :=
  [⟨"amount", none, 16, 1000, true⟩, ⟨"amount", none, 4, 1000, true⟩,
    ⟨"amount", some "USD", 4, 1000, true⟩]

/-- A member with another unit takes the comparison away from two members of one unit. -/
theorem not_contradictory_of_mixedUnits :
    ¬ ∀ members minSupport, valueVerdict members minSupport = .contradictory ↔
      ∃ left ∈ members, ∃ right ∈ members, left.supported minSupport = true ∧
        right.supported minSupport = true ∧ left.unit = right.unit ∧
        left.mask &&& right.mask = 0 := by
  intro hclaim
  exact absurd (hclaim mixedUnits guardMinSupport) (by decide)

/-! ## Names -/

section

variable (unicode : Unicode)

def normalizeName (name : String) : String :=
  String.ofList ((name.toList.filter unicode.isAlphanumeric).flatMap unicode.toLowercase)

def nameCorroborated (names : List String) : Bool :=
  if names.length < 2 then false
  else match names.map (normalizeName unicode) with
    | [] => false
    | first :: names =>
      if first = "" ∨ first ∈ genericNames then false else names.all fun name ↦ name = first

def evaluateField (members : List MemberEvidence) (minSupport : ℕ) : FieldGuard :=
  let verdict := valueVerdict members minSupport
  let corroborated := nameCorroborated unicode (members.map (·.name))
  { valueVerdict := verdict
    nameCorroborated := corroborated
    causes := [.cfidExact, .typeCompatible] ++
      (if corroborated then [.nameCorroborated] else []) ++
      [match verdict with
        | .compatible => .valueProfileCompatible
        | .contradictory => .valueProfileContradiction
        | .unknown => .valueProfileUnknown
        | .notComparable => .valueProfileNotComparable] }

/-- Names corroborate when they all normalize to one name that says something. -/
theorem nameCorroborated_iff (names : List String) :
    nameCorroborated unicode names = true ↔ 2 ≤ names.length ∧ ∃ first, first ≠ "" ∧
      first ∉ genericNames ∧ ∀ name ∈ names, normalizeName unicode name = first := by
  cases names with
  | nil => simp [nameCorroborated]
  | cons name names =>
      rw [nameCorroborated, List.map_cons]
      constructor
      · intro hnames
        split_ifs at hnames with hlength
        dsimp only at hnames
        split_ifs at hnames with hgeneric
        rw [List.all_eq_true] at hnames
        refine ⟨not_lt.mp hlength, normalizeName unicode name, ?_, ?_, ?_⟩
        · exact fun hempty ↦ hgeneric (.inl hempty)
        · exact fun hmem ↦ hgeneric (.inr hmem)
        · intro other hother
          rcases List.mem_cons.mp hother with rfl | hother
          · rfl
          · exact of_decide_eq_true (hnames _ (List.mem_map_of_mem hother))
      · rintro ⟨hlength, first, hempty, hgeneric, hnames⟩
        have hname := hnames name List.mem_cons_self
        rw [if_neg (not_lt.mpr hlength)]
        simp only [hname]
        rw [if_neg (not_or.mpr ⟨hempty, hgeneric⟩), List.all_eq_true]
        intro other hother
        rcases List.mem_map.mp hother with ⟨text, htext, rfl⟩
        exact decide_eq_true (hnames text (List.mem_cons_of_mem _ htext))

theorem nameCorroborated_perm {left right : List String} (hperm : left.Perm right) :
    nameCorroborated unicode left = nameCorroborated unicode right := by
  rw [Bool.eq_iff_iff, nameCorroborated_iff, nameCorroborated_iff, hperm.length_eq]
  simp only [hperm.mem_iff]

/-- The whole guard of a field, with its causes, is about the members and not about their order. -/
theorem evaluateField_perm {left right : List MemberEvidence} (hperm : left.Perm right)
    (minSupport : ℕ) :
    evaluateField unicode left minSupport = evaluateField unicode right minSupport := by
  simp only [evaluateField, valueVerdict_perm hperm minSupport,
    nameCorroborated_perm unicode (hperm.map _)]

/-! ## The evidence of a cohort -/

/-- A member of a cohort: its annotated fields, and the leaves of its value profile, if it has
one. -/
structure GuardMember where
  fields : List AnnotatedField
  leaves : Option (List LeafValueProfile)

/-- The last key of a path. -/
def leafNameOf (leafPath : String) : String :=
  String.ofList (leafPath.toList.reverse.takeWhile (· ≠ '.')).reverse

/-- Of two leaves with one path the later one is found. -/
def leafEvidence (leaves : List LeafValueProfile) (leafPath : String) : UInt8 × ℕ :=
  match leaves.reverse.find? (·.path = leafPath) with
  | none => (0, 0)
  | some leaf => (leaf.numericBucketMask, leaf.typeCounts.number)

/-- The evidence of a member that has a field with the id. -/
def GuardMember.evidence (canonicalFieldId : String) (member : GuardMember) :
    Option MemberEvidence :=
  (member.fields.find? fun field ↦ field.canonicalFieldId = some canonicalFieldId).map fun field ↦
    let leafPath := leafPathOf field.path.toString
    let found := leafEvidence (member.leaves.getD []) leafPath
    { name := leafNameOf leafPath
      unit := field.unit.map (·.code)
      mask := found.1
      numericCount := found.2
      hasProfile := member.leaves.isSome }

def guardOf (minSupport : ℕ) (members : List GuardMember) (field : GoldField) : FieldGuard :=
  evaluateField unicode (members.filterMap (·.evidence field.canonicalFieldId)) minSupport

/-- `shadow_evaluate_guard`: some field of the umbrella is contradictory. -/
def shadowEvaluateGuard (minSupport : ℕ) (umbrella : List GoldField) (members : List GuardMember) :
    Bool :=
  umbrella.any fun field ↦ (guardOf unicode minSupport members field).valueVerdict = .contradictory

/-- With enforcement a contradiction suppresses the proposal of an umbrella. -/
def suppressed (enforceValueGuard : Bool) (minSupport : ℕ) (umbrella : List GoldField)
    (members : List GuardMember) : Bool :=
  enforceValueGuard && shadowEvaluateGuard unicode minSupport umbrella members

theorem shadowEvaluateGuard_perm {left right : List GuardMember} (hperm : left.Perm right)
    (minSupport : ℕ) (umbrella : List GoldField) :
    shadowEvaluateGuard unicode minSupport umbrella left =
      shadowEvaluateGuard unicode minSupport umbrella right := by
  unfold shadowEvaluateGuard
  congr 1
  funext field
  rw [guardOf, guardOf, evaluateField_perm unicode (hperm.filterMap _)]

/-- Members without a value profile never suppress a proposal. -/
theorem not_suppressed_of_append_unprofiled (enforceValueGuard : Bool) (minSupport : ℕ)
    (umbrella : List GoldField) {members weak : List GuardMember}
    (hweak : ∀ member ∈ weak, member.leaves = none)
    (hmembers : suppressed unicode enforceValueGuard minSupport umbrella members = false) :
    suppressed unicode enforceValueGuard minSupport umbrella (members ++ weak) = false := by
  unfold suppressed at hmembers ⊢
  rw [Bool.and_eq_false_imp] at hmembers ⊢
  intro henforce
  have hclear := hmembers henforce
  unfold shadowEvaluateGuard at hclear ⊢
  rw [List.any_eq_false] at hclear ⊢
  intro field hfield hverdict
  refine hclear field hfield (decide_eq_true ?_)
  have happended := of_decide_eq_true hverdict
  simp only [guardOf, evaluateField, List.filterMap_append] at happended ⊢
  rw [valueVerdict_eq_contradictory_iff] at happended ⊢
  refine ⟨?_, happended.2.of_append_unsupported ?_⟩
  · intro left hleft right hright
    exact happended.1 left (List.mem_append_left _ hleft) right (List.mem_append_left _ hright)
  · intro evidence hevidence
    rcases List.mem_filterMap.mp hevidence with ⟨member, hmember, hsome⟩
    rcases Option.map_eq_some_iff.mp hsome with ⟨found, -, rfl⟩
    simp [MemberEvidence.supported, hweak member hmember]

end

end Deblob.Umbrella
