import Deblob.Dlp.Redact
import Mathlib.Algebra.Order.BigOperators.Group.List

/-!
# What a document becomes when it is not dropped

The rewritten document depends on the number of the last placeholder only, and the findings, the
renamed keys and the nesting are measures of the document. The members below sensitive names are
not reached by them.
-/

namespace Deblob.Dlp

open Lib

/-- What is counted at the scalars, at the sensitive names and at the other keys. -/
structure Weights where
  number : String → ℕ
  string : String → ℕ
  sensitive : ℕ
  key : String → ℕ

section

variable (skip : String → Bool) (weights : Weights)

mutual

/-- A sum over the reached scalars and keys. -/
def Value.weight : Value → ℕ
  | .object members => membersWeight members
  | .array items => itemsWeight items
  | .string text => weights.string text
  | .number text => weights.number text
  | .bool _ => 0
  | .null => 0

def membersWeight : List (String × Value) → ℕ
  | [] => 0
  | (key, value) :: members =>
    (if skip key then weights.sensitive else weights.key key + value.weight) +
      membersWeight members

def itemsWeight : List Value → ℕ
  | [] => 0
  | item :: items => item.weight + itemsWeight items

end

mutual

/-- How deep the reached values are nested. -/
def Value.nesting : Value → ℕ
  | .object members => membersNesting members
  | .array items => itemsNesting items
  | .string _ => 0
  | .number _ => 0
  | .bool _ => 0
  | .null => 0

def membersNesting : List (String × Value) → ℕ
  | [] => 0
  | (key, value) :: members =>
    max (if skip key then 0 else value.nesting + 1) (membersNesting members)

def itemsNesting : List Value → ℕ
  | [] => 0
  | item :: items => max (item.nesting + 1) (itemsNesting items)

end

def memberWeight (member : String × Value) : ℕ :=
  if skip member.1 then weights.sensitive
  else weights.key member.1 + member.2.weight skip weights

theorem membersWeight_eq (members : List (String × Value)) :
    membersWeight skip weights members = (members.map (memberWeight skip weights)).sum := by
  induction members with
  | nil => rfl
  | cons member members ih =>
      rw [membersWeight, ih, List.map_cons, List.sum_cons]
      rfl

variable {skip weights}

theorem membersWeight_perm {left right : List (String × Value)} (hperm : left.Perm right) :
    membersWeight skip weights left = membersWeight skip weights right := by
  rw [membersWeight_eq, membersWeight_eq, (hperm.map _).sum_eq]

theorem membersWeight_append (left right : List (String × Value)) :
    membersWeight skip weights (left ++ right) =
      membersWeight skip weights left + membersWeight skip weights right := by
  rw [membersWeight_eq, membersWeight_eq, membersWeight_eq, List.map_append, List.sum_append]

/-- The nesting of members is the largest of theirs. -/
theorem membersNesting_le_iff {members : List (String × Value)} {bound : ℕ} :
    membersNesting skip members ≤ bound ↔
      ∀ member ∈ members, ¬skip member.1 → member.2.nesting skip + 1 ≤ bound := by
  induction members with
  | nil => simp [membersNesting]
  | cons member members ih =>
      rw [membersNesting, List.forall_mem_cons, ← ih, max_le_iff]
      by_cases hskip : skip member.1
      · simp [hskip]
      · simp [hskip]

/-- Larger weights weigh more. -/
theorem weight_mono {other : Weights} (hnumber : ∀ text, weights.number text ≤ other.number text)
    (hstring : ∀ text, weights.string text ≤ other.string text)
    (hsensitive : weights.sensitive ≤ other.sensitive)
    (hkey : ∀ key, weights.key key ≤ other.key key) (value : Value) :
    value.weight skip weights ≤ value.weight skip other := by
  induction value using Value.induct with
  | null => exact le_rfl
  | bool value => exact le_rfl
  | number text => exact hnumber text
  | string text => exact hstring text
  | array items ih =>
      show itemsWeight _ _ items ≤ itemsWeight _ _ items
      induction items with
      | nil => exact le_rfl
      | cons item items ihItems =>
          rcases List.forall_mem_cons.mp ih with ⟨hitem, hrest⟩
          exact Nat.add_le_add hitem (ihItems hrest)
  | object members ih =>
      show membersWeight _ _ members ≤ membersWeight _ _ members
      rw [membersWeight_eq, membersWeight_eq]
      apply List.sum_le_sum
      intro member hmember
      unfold memberWeight
      split
      · exact hsensitive
      · exact Nat.add_le_add (hkey _) (ih member hmember)

/-- The members of a map weigh no more than the members it is built of. -/
theorem membersWeight_collectMap_le (members : List (String × Value)) :
    membersWeight skip weights (collectMap members) ≤ membersWeight skip weights members := by
  rcases exists_perm_collectMap members with ⟨lost, hperm⟩
  rw [membersWeight_perm hperm, membersWeight_append]
  exact Nat.le_add_right _ _

end

section

variable (detectors : Detectors)

/-- The keys that are renamed. -/
def keyWeights : Weights where
  number _ := 0
  string _ := 0
  sensitive := 0
  key key := if isSensitiveKeyData detectors key then 1 else 0

def findingWeights : Weights where
  number text := if classifyScalar detectors text = .secret then 1 else 0
  string text := if classifyScalar detectors text = .clean then 0 else 1
  sensitive := 1
  key key := if isSensitiveKeyData detectors key then 1 else 0

abbrev Detectors.sensitive (key : String) : Bool := sensitiveFieldName detectors.folding key

abbrev Value.dynamicKeys (value : Value) : ℕ :=
  value.weight detectors.sensitive (keyWeights detectors)

abbrev Value.findings (value : Value) : ℕ :=
  value.weight detectors.sensitive (findingWeights detectors)

/-- What a text becomes. -/
def scalarText (text : String) : String :=
  match classifyScalar detectors text with
  | .secret => markSecret
  | .pii => markPii
  | .clean => text

mutual

/-- What a value becomes when `seq` keys were renamed before it. -/
def rewrite : Value → ℕ → Value
  | .object members, seq => .object (collectMap (rewriteMembers members seq))
  | .array items, seq => .array (rewriteItems items seq)
  | .string text, _ => .string (scalarText detectors text)
  | .number text, _ =>
    if classifyScalar detectors text = .secret then .string markSecret else .number text
  | .bool value, _ => .bool value
  | .null, _ => .null

def rewriteMembers : List (String × Value) → ℕ → List (String × Value)
  | [], _ => []
  | (key, value) :: members, seq =>
    if detectors.sensitive key then
      (key, .string markSensitiveName) :: rewriteMembers members seq
    else if isSensitiveKeyData detectors key then
      (keyPlaceholder (seq + 1), rewrite value (seq + 1)) ::
        rewriteMembers members (seq + 1 + value.dynamicKeys detectors)
    else
      (key, rewrite value seq) :: rewriteMembers members (seq + value.dynamicKeys detectors)

def rewriteItems : List Value → ℕ → List Value
  | [], _ => []
  | item :: items, seq =>
    rewrite item seq :: rewriteItems items (seq + item.dynamicKeys detectors)

end

end

/-! ## The redaction as a rewriting -/

/-- What a part of the redaction does to the context. -/
structure Advanced (cfg : DlpConfig) (before after : Ctx) (keys findings : ℕ) : Prop where
  seq : after.dynamicKeySeq = before.dynamicKeySeq + keys
  total : after.counts.total = before.counts.total + findings
  dropped : after.dropped = none ↔
    before.dropped = none ∧ (findings = 0 ∨ after.counts.total ≤ cfg.maxFindings)

section

variable {cfg : DlpConfig} {detectors : Detectors} {ctx : Ctx}

theorem Advanced.refl : Advanced cfg ctx ctx 0 0 := by
  constructor
  · rfl
  · rfl
  · simp

theorem Advanced.trans {first second third : Ctx} {keys otherKeys findings otherFindings : ℕ}
    (hfirst : Advanced cfg first second keys findings)
    (hsecond : Advanced cfg second third otherKeys otherFindings) :
    Advanced cfg first third (keys + otherKeys) (findings + otherFindings) := by
  constructor
  · rw [hsecond.seq, hfirst.seq, Nat.add_assoc]
  · rw [hsecond.total, hfirst.total, Nat.add_assoc]
  · have htotal := hsecond.total
    rw [hsecond.dropped, hfirst.dropped, and_assoc]
    refine and_congr_right fun _ ↦ ?_
    omega

theorem total_count (counts : RedactionCounts) (finding : Finding) :
    (counts.count finding).total = counts.total + 1 := by
  cases finding <;> simp only [RedactionCounts.count, RedactionCounts.total] <;> omega

theorem advanced_found (finding : Finding) : Advanced cfg ctx (ctx.found cfg finding) 0 1 := by
  have htotal := total_count ctx.counts finding
  unfold Ctx.found Ctx.checkBudget
  split
  · rename_i hover
    constructor
    · rfl
    · exact htotal
    · dsimp only at hover ⊢
      constructor
      · exact fun hnone ↦ nomatch hnone
      · rintro ⟨-, hzero | hle⟩
        · cases hzero
        · exact absurd hle (not_le.mpr hover.2)
  · rename_i hwithin
    constructor
    · rfl
    · exact htotal
    · dsimp only at hwithin ⊢
      constructor
      · exact fun hnone ↦ ⟨hnone, .inr (not_lt.mp fun hlt ↦ hwithin ⟨hnone, hlt⟩)⟩
      · exact fun hboth ↦ hboth.1

theorem advanced_placeholder : Advanced cfg ctx ctx.nextKeyPlaceholder.2 1 0 := by
  constructor
  · rfl
  · rfl
  · simp [Ctx.nextKeyPlaceholder]

theorem dropped_of_found {finding : Finding} (hnone : (ctx.found cfg finding).dropped = none) :
    ctx.dropped = none := ((advanced_found finding).dropped.mp hnone).1

theorem dropped_of_redactKey {key : String}
    (hnone : (redactKey detectors cfg key ctx).2.dropped = none) : ctx.dropped = none := by
  unfold redactKey at hnone
  split at hnone
  · exact dropped_of_found hnone
  · exact hnone

theorem depth_of_redactValue {value : Value} {depth : ℕ}
    (hnone : (redactValue detectors cfg value depth ctx).2.dropped = none) :
    depth ≤ cfg.maxDepth := by
  by_contra hdeep
  unfold redactValue at hnone
  rw [if_pos (not_le.mp hdeep)] at hnone
  unfold Ctx.tooDeep at hnone
  split at hnone
  · cases hnone
  · rename_i hsome
    exact hsome hnone

/-- Once a document is dropped it stays dropped, and a document that is nested too deep is. -/
theorem within_of_redactValue (value : Value) {depth : ℕ}
    (hnone : (redactValue detectors cfg value depth ctx).2.dropped = none) :
    ctx.dropped = none ∧ depth + value.nesting detectors.sensitive ≤ cfg.maxDepth := by
  have hdepth := depth_of_redactValue hnone
  induction value using Value.induct generalizing depth ctx with
  | null =>
      rw [redactValue, if_neg (not_lt.mpr hdepth)] at hnone
      exact ⟨hnone, hdepth⟩
  | bool value =>
      rw [redactValue, if_neg (not_lt.mpr hdepth)] at hnone
      exact ⟨hnone, hdepth⟩
  | number text =>
      rw [redactValue, if_neg (not_lt.mpr hdepth)] at hnone
      split at hnone
      · exact ⟨dropped_of_found hnone, hdepth⟩
      · exact ⟨hnone, hdepth⟩
  | string text =>
      rw [redactValue, if_neg (not_lt.mpr hdepth)] at hnone
      split at hnone
      · exact ⟨dropped_of_found hnone, hdepth⟩
      · exact ⟨dropped_of_found hnone, hdepth⟩
      · exact ⟨hnone, hdepth⟩
  | array items ih =>
      rw [redactValue, if_neg (not_lt.mpr hdepth)] at hnone
      change (redactItems detectors cfg items depth ctx).2.dropped = none at hnone
      show ctx.dropped = none ∧ depth + itemsNesting detectors.sensitive items ≤ cfg.maxDepth
      induction items generalizing ctx with
      | nil => exact ⟨hnone, hdepth⟩
      | cons item items ihItems =>
          rcases List.forall_mem_cons.mp ih with ⟨hitem, hrest⟩
          rcases ihItems hrest hnone with ⟨hfirst, hdeepest⟩
          rcases hitem hfirst (depth_of_redactValue hfirst) with ⟨hstart, hnested⟩
          rw [itemsNesting]
          exact ⟨hstart, by omega⟩
  | object members ih =>
      rw [redactValue, if_neg (not_lt.mpr hdepth)] at hnone
      change (redactMembers detectors cfg members depth ctx).2.dropped = none at hnone
      show ctx.dropped = none ∧ depth + membersNesting detectors.sensitive members ≤ cfg.maxDepth
      induction members generalizing ctx with
      | nil => exact ⟨hnone, hdepth⟩
      | cons member members ihMembers =>
          rcases List.forall_mem_cons.mp ih with ⟨hmember, hrest⟩
          rw [redactMembers] at hnone
          rw [membersNesting]
          split at hnone
          · rename_i hsensitive
            rcases ihMembers hrest hnone with ⟨hfirst, hdeepest⟩
            rw [if_pos hsensitive]
            exact ⟨dropped_of_found hfirst, by omega⟩
          · rename_i hsensitive
            rcases ihMembers hrest hnone with ⟨hfirst, hdeepest⟩
            rcases hmember hfirst (depth_of_redactValue hfirst) with ⟨hkey, hnested⟩
            rw [if_neg hsensitive]
            exact ⟨dropped_of_redactKey hkey, by omega⟩
theorem advanced_redactKey {key : String} : Advanced cfg ctx (redactKey detectors cfg key ctx).2
    ((keyWeights detectors).key key) ((findingWeights detectors).key key) := by
  unfold redactKey keyWeights findingWeights
  dsimp only
  split
  · exact (advanced_found _).trans advanced_placeholder
  · exact .refl

theorem redactKey_fst {key : String} : (redactKey detectors cfg key ctx).1 =
    if isSensitiveKeyData detectors key then keyPlaceholder (ctx.dynamicKeySeq + 1) else key := by
  unfold redactKey
  split
  · rw [Ctx.nextKeyPlaceholder, (advanced_found _).seq, Nat.add_zero]
  · rfl

/-- A value that is not nested too deep becomes its rewriting. -/
theorem redactValue_eq (value : Value) {depth : ℕ}
    (hdepth : depth + value.nesting detectors.sensitive ≤ cfg.maxDepth) :
    (redactValue detectors cfg value depth ctx).1 = rewrite detectors value ctx.dynamicKeySeq ∧
      Advanced cfg ctx (redactValue detectors cfg value depth ctx).2
        (value.dynamicKeys detectors) (value.findings detectors) := by
  have hshallow : ¬cfg.maxDepth < depth := by omega
  induction value using Value.induct generalizing depth ctx with
  | null =>
      rw [redactValue, if_neg hshallow]
      exact ⟨rfl, .refl⟩
  | bool value =>
      rw [redactValue, if_neg hshallow]
      exact ⟨rfl, .refl⟩
  | number text =>
      rw [redactValue, if_neg hshallow, rewrite, Value.dynamicKeys, Value.findings, Value.weight,
        Value.weight, findingWeights]
      dsimp only
      split
      · exact ⟨rfl, advanced_found _⟩
      · exact ⟨rfl, .refl⟩
  | string text =>
      rw [redactValue, if_neg hshallow, rewrite, scalarText, Value.dynamicKeys, Value.findings,
        Value.weight, Value.weight, findingWeights]
      dsimp only
      cases hclass : classifyScalar detectors text with
      | secret => exact ⟨rfl, advanced_found _⟩
      | pii => exact ⟨rfl, advanced_found _⟩
      | clean => exact ⟨rfl, .refl⟩
  | array items ih =>
      have hitems : (redactItems detectors cfg items depth ctx).1 =
            rewriteItems detectors items ctx.dynamicKeySeq ∧
          Advanced cfg ctx (redactItems detectors cfg items depth ctx).2
            (itemsWeight detectors.sensitive (keyWeights detectors) items)
            (itemsWeight detectors.sensitive (findingWeights detectors) items) := by
        rw [Value.nesting] at hdepth
        induction items generalizing ctx with
        | nil => exact ⟨rfl, .refl⟩
        | cons item items ihItems =>
            rcases List.forall_mem_cons.mp ih with ⟨hitem, hrest⟩
            rw [itemsNesting] at hdepth
            have hfirst := @hitem ctx (depth + 1) (by omega) (by omega)
            have hothers := @ihItems hrest (redactValue detectors cfg item (depth + 1) ctx).2
              (by omega)
            rw [redactItems]
            constructor
            · rw [rewriteItems, ← hfirst.1, ← hfirst.2.seq, ← hothers.1]
            · exact hfirst.2.trans hothers.2
      rw [redactValue, if_neg hshallow]
      exact ⟨congrArg Value.array hitems.1, hitems.2⟩
  | object members ih =>
      have hmembers : (redactMembers detectors cfg members depth ctx).1 =
            rewriteMembers detectors members ctx.dynamicKeySeq ∧
          Advanced cfg ctx (redactMembers detectors cfg members depth ctx).2
            (membersWeight detectors.sensitive (keyWeights detectors) members)
            (membersWeight detectors.sensitive (findingWeights detectors) members) := by
        rw [Value.nesting] at hdepth
        induction members generalizing ctx with
        | nil => exact ⟨rfl, .refl⟩
        | cons member members ihMembers =>
            rcases List.forall_mem_cons.mp ih with ⟨hmember, hrest⟩
            rw [membersNesting] at hdepth
            rw [redactMembers, rewriteMembers, membersWeight, membersWeight]
            by_cases hsensitive : detectors.sensitive member.1
            · have hothers := @ihMembers hrest (ctx.found cfg .sensitiveKey) (by omega)
              have hfound := @advanced_found cfg ctx .sensitiveKey
              rw [if_pos hsensitive, if_pos hsensitive, if_pos hsensitive, if_pos hsensitive]
              rw [hfound.seq, Nat.add_zero] at hothers
              exact ⟨congrArg _ hothers.1, hfound.trans hothers.2⟩
            · have hkey := @advanced_redactKey cfg detectors ctx member.1
              have hvalue := @hmember (redactKey detectors cfg member.1 ctx).2 (depth + 1)
                (by rw [if_neg hsensitive] at hdepth; omega)
                (by rw [if_neg hsensitive] at hdepth; omega)
              have hothers := @ihMembers hrest (redactValue detectors cfg member.2 (depth + 1)
                (redactKey detectors cfg member.1 ctx).2).2 (by omega)
              rw [if_neg hsensitive, if_neg hsensitive, if_neg hsensitive, if_neg hsensitive]
              rw [hvalue.2.seq, hkey.seq] at hothers
              rw [hkey.seq] at hvalue
              constructor
              · show ((redactKey detectors cfg member.1 ctx).1, _) :: _ = _
                rw [hvalue.1, hothers.1, redactKey_fst, keyWeights]
                by_cases hdata : isSensitiveKeyData detectors member.1
                · simp only [if_pos hdata]
                · simp only [if_neg hdata, Nat.add_zero]
              · exact (hkey.trans hvalue.2).trans hothers.2
      rw [redactValue, if_neg hshallow]
      exact ⟨congrArg (fun out ↦ Value.object (collectMap out)) hmembers.1, hmembers.2⟩

variable {document : Document}

theorem redact_dropped_iff : (redact detectors cfg document).dropped = none ↔
    document.value.findings detectors ≤ cfg.maxFindings ∧
      document.value.nesting detectors.sensitive ≤ cfg.maxDepth := by
  constructor
  · intro hnone
    have hdepth := (within_of_redactValue document.value hnone).2
    have hadvanced := (@redactValue_eq cfg detectors ⟨⟨0, 0, 0, 0⟩, 0, none⟩ document.value 0
      hdepth).2
    have htotal := hadvanced.total
    have hbudget := (hadvanced.dropped.mp hnone).2
    rw [show RedactionCounts.total ⟨0, 0, 0, 0⟩ = 0 from rfl] at htotal
    omega
  · rintro ⟨hfindings, hdepth⟩
    have hadvanced := (@redactValue_eq cfg detectors ⟨⟨0, 0, 0, 0⟩, 0, none⟩ document.value 0
      (by omega)).2
    have htotal := hadvanced.total
    rw [show RedactionCounts.total ⟨0, 0, 0, 0⟩ = 0 from rfl] at htotal
    exact hadvanced.dropped.mpr ⟨rfl, .inr (by omega)⟩

theorem redact_value (hnone : (redact detectors cfg document).dropped = none) :
    (redact detectors cfg document).document.value = rewrite detectors document.value 0 := by
  have hdepth := (redact_dropped_iff.mp hnone).2
  exact (@redactValue_eq cfg detectors ⟨⟨0, 0, 0, 0⟩, 0, none⟩ document.value 0 (by omega)).1

end

end Deblob.Dlp
