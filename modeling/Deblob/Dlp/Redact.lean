import Deblob.Dlp.Detectors
import Deblob.Lib.SortedMap
import Mathlib.Algebra.BigOperators.Group.List.Basic
import Mathlib.Data.String.Basic

/-!
# Redacting a document

The values below sensitive names, the sensitive scalars and the keys that are data are replaced,
the last by numbered placeholders. Too many findings and too deep a nesting drop the document. The
members of an object are inserted into the new object in the order of their old keys.
-/

namespace Deblob.Dlp

open Lib

/-- `serde_json::Value`; a number keeps its text. -/
inductive Value where
  | null
  | bool (value : Bool)
  | number (text : String)
  | string (text : String)
  | array (items : List Value)
  | object (members : List (String × Value))

@[elab_as_elim]
theorem Value.induct {motive : Value → Prop} (null : motive .null)
    (bool : ∀ value, motive (.bool value)) (number : ∀ text, motive (.number text))
    (string : ∀ text, motive (.string text))
    (array : ∀ items, (∀ item ∈ items, motive item) → motive (.array items))
    (object : ∀ members, (∀ member ∈ members, motive member.2) → motive (.object members))
    (value : Value) : motive value :=
  @Value.rec motive (fun items ↦ ∀ item ∈ items, motive item)
    (fun members ↦ ∀ member ∈ members, motive member.2) (fun member ↦ motive member.2)
    null bool number string array object (fun _ hitem ↦ nomatch hitem)
    (fun _ _ hhead htail ↦ List.forall_mem_cons.mpr ⟨hhead, htail⟩)
    (fun _ hmember ↦ nomatch hmember)
    (fun _ _ hhead htail ↦ List.forall_mem_cons.mpr ⟨hhead, htail⟩) (fun _ _ hvalue ↦ hvalue) value

/-- The objects of a value are in the order of their keys, as the source's maps are. -/
inductive Value.Sorted : Value → Prop
  | null : Sorted .null
  | bool (value : Bool) : Sorted (.bool value)
  | number (text : String) : Sorted (.number text)
  | string (text : String) : Sorted (.string text)
  | array {items : List Value} (hitems : ∀ item ∈ items, item.Sorted) : Sorted (.array items)
  | object {members : List (String × Value)} (hkeys : SortedKeys members)
      (hmembers : ∀ member ∈ members, member.2.Sorted) : Sorted (.object members)

structure Document where
  value : Value
  sorted : value.Sorted

/-- The bounds are 32-bit numbers. -/
structure DlpConfig where
  maxFindings : ℕ
  maxDepth : ℕ
  maxFindings_lt : maxFindings < 2 ^ 32

inductive DropReason where
  | excessiveFindings
  | tooDeep
deriving DecidableEq

inductive Finding where
  | sensitiveKey
  | secretPattern
  | piiPattern
  | redactedDynamicKey

structure RedactionCounts where
  sensitiveKey : ℕ
  secretPattern : ℕ
  piiPattern : ℕ
  redactedDynamicKey : ℕ

def RedactionCounts.total (counts : RedactionCounts) : ℕ :=
  counts.sensitiveKey + counts.secretPattern + counts.piiPattern + counts.redactedDynamicKey

def RedactionCounts.count (counts : RedactionCounts) : Finding → RedactionCounts
  | .sensitiveKey => { counts with sensitiveKey := counts.sensitiveKey + 1 }
  | .secretPattern => { counts with secretPattern := counts.secretPattern + 1 }
  | .piiPattern => { counts with piiPattern := counts.piiPattern + 1 }
  | .redactedDynamicKey => { counts with redactedDynamicKey := counts.redactedDynamicKey + 1 }

structure Ctx where
  counts : RedactionCounts
  dynamicKeySeq : ℕ
  dropped : Option DropReason

def Ctx.checkBudget (cfg : DlpConfig) (ctx : Ctx) : Ctx :=
  if ctx.dropped = none ∧ cfg.maxFindings < ctx.counts.total then
    { ctx with dropped := some .excessiveFindings }
  else ctx

/-- A finding is counted and the budget is checked. -/
def Ctx.found (cfg : DlpConfig) (finding : Finding) (ctx : Ctx) : Ctx :=
  { ctx with counts := ctx.counts.count finding }.checkBudget cfg

def Ctx.tooDeep (ctx : Ctx) : Ctx :=
  if ctx.dropped = none then { ctx with dropped := some .tooDeep } else ctx

def Ctx.nextKeyPlaceholder (ctx : Ctx) : String × Ctx :=
  (keyPlaceholder (ctx.dynamicKeySeq + 1), { ctx with dynamicKeySeq := ctx.dynamicKeySeq + 1 })

structure RedactionOutcome where
  document : Document
  counts : RedactionCounts
  dropped : Option DropReason

section

variable (detectors : Detectors) (cfg : DlpConfig)

/-- The key a member gets; a key that is data is replaced. -/
def redactKey (key : String) (ctx : Ctx) : String × Ctx :=
  if isSensitiveKeyData detectors key then (ctx.found cfg .redactedDynamicKey).nextKeyPlaceholder
  else (key, ctx)

mutual

def redactValue (value : Value) (depth : ℕ) (ctx : Ctx) : Value × Ctx :=
  if cfg.maxDepth < depth then (.null, ctx.tooDeep)
  else match value with
    | .object members =>
      let (out, ctx) := redactMembers members depth ctx
      (.object (collectMap out), ctx)
    | .array items =>
      let (out, ctx) := redactItems items depth ctx
      (.array out, ctx)
    | .string text =>
      match classifyScalar detectors text with
      | .secret => (.string markSecret, ctx.found cfg .secretPattern)
      | .pii => (.string markPii, ctx.found cfg .piiPattern)
      | .clean => (.string text, ctx)
    | .number text =>
      if classifyScalar detectors text = .secret then
        (.string markSecret, ctx.found cfg .secretPattern)
      else (.number text, ctx)
    | .bool value => (.bool value, ctx)
    | .null => (.null, ctx)

/-- The members in the order in which they are inserted. -/
def redactMembers (members : List (String × Value)) (depth : ℕ) (ctx : Ctx) :
    List (String × Value) × Ctx :=
  match members with
  | [] => ([], ctx)
  | (key, value) :: members =>
    if sensitiveFieldName detectors.folding key then
      let (rest, ctx) := redactMembers members depth (ctx.found cfg .sensitiveKey)
      ((key, .string markSensitiveName) :: rest, ctx)
    else
      let (outKey, ctx) := redactKey detectors cfg key ctx
      let (out, ctx) := redactValue value (depth + 1) ctx
      let (rest, ctx) := redactMembers members depth ctx
      ((outKey, out) :: rest, ctx)

def redactItems (items : List Value) (depth : ℕ) (ctx : Ctx) : List Value × Ctx :=
  match items with
  | [] => ([], ctx)
  | item :: items =>
    let (out, ctx) := redactValue item (depth + 1) ctx
    let (rest, ctx) := redactItems items depth ctx
    (out :: rest, ctx)

end

theorem sorted_redactValue (value : Value) (depth : ℕ) (ctx : Ctx) :
    (redactValue detectors cfg value depth ctx).1.Sorted := by
  induction value using Value.induct generalizing depth ctx with
  | null =>
      unfold redactValue
      split <;> exact .null
  | bool value =>
      unfold redactValue
      split
      · exact .null
      · exact .bool value
  | number text =>
      unfold redactValue
      split
      · exact .null
      · dsimp only
        split
        · exact .string _
        · exact .number text
  | string text =>
      unfold redactValue
      split
      · exact .null
      · dsimp only
        split <;> exact .string _
  | array items ih =>
      have hitems : ∀ out ∈ (redactItems detectors cfg items depth ctx).1, out.Sorted := by
        induction items generalizing ctx with
        | nil => exact fun _ hout ↦ nomatch hout
        | cons item items ihItems =>
            rcases List.forall_mem_cons.mp ih with ⟨hitem, hrest⟩
            unfold redactItems
            exact List.forall_mem_cons.mpr ⟨hitem _ _, ihItems hrest _⟩
      unfold redactValue
      split
      · exact .null
      · exact .array hitems
  | object members ih =>
      have hmembers : ∀ out ∈ (redactMembers detectors cfg members depth ctx).1,
          out.2.Sorted := by
        induction members generalizing ctx with
        | nil => exact fun _ hout ↦ nomatch hout
        | cons member members ihMembers =>
            rcases List.forall_mem_cons.mp ih with ⟨hmember, hrest⟩
            unfold redactMembers
            split
            · exact List.forall_mem_cons.mpr ⟨.string _, ihMembers hrest _⟩
            · exact List.forall_mem_cons.mpr ⟨hmember _ _, ihMembers hrest _⟩
      unfold redactValue
      split
      · exact .null
      · exact .object (sortedKeys_collectMap _) fun out hout ↦
          hmembers out (mem_of_mem_collectMap hout)

def redact (document : Document) : RedactionOutcome :=
  let result := redactValue detectors cfg document.value 0 ⟨⟨0, 0, 0, 0⟩, 0, none⟩
  ⟨⟨result.1, sorted_redactValue detectors cfg _ _ _⟩, result.2.counts, result.2.dropped⟩

end

end Deblob.Dlp
