import Deblob.Lib.Except
import Deblob.Semantic.Types
import Mathlib.Data.Finset.Insert

/-!
# Vocabularies of metadata

The tables of `deblob-semantic-v1` and the registered ids that the codes of metadata are checked
against. The first unknown code is reported. The texts of enum values and the codes within a
registered vocabulary are not checked.
-/

namespace Deblob.Semantic

open Umbrella (UnitSystem)

def ucumUnits : List String :=
  ["1", "%", "By", "Cel", "K", "[degF]", "g", "kg", "L", "m", "mL", "mm", "cm", "km", "mol", "s",
    "ms", "min", "h", "d", "Hz", "V", "A", "W", "J", "N", "Pa"]

def iso4217Currencies : List String :=
  ["USD", "EUR", "GBP", "JPY", "PLN", "CHF", "CAD", "AUD", "NZD", "CNY", "INR", "BRL", "MXN",
    "ZAR", "SEK", "NOK", "DKK", "SGD", "HKD", "KRW"]

def namespaceCodes : List String :=
  ["acme.customer_id", "acme.order_id", "iso.country_code", "internal.uuid"]

def meaningVocabularies : List String :=
  ["deblob/order-status/v1", "deblob/user-role/v1", "deblob/payment-method/v1"]

inductive VocabError where
  | unknownUnit (code : String)
  | unknownNamespace (code : String)
  | unregisteredFieldId (cfid : String)
  | unregisteredEventType (event : String)
  | unknownMeaningVocabulary (vocabulary : String)
deriving DecidableEq

/-- The ids an operator registered. -/
structure Registries where
  fieldIds : Finset String
  eventTypeIds : Finset String

/-- Any code of a registered unit will do that is not empty. -/
def knownUnit (unit : Umbrella.Unit) : Bool :=
  match unit.system with
  | .ucum => unit.code ∈ ucumUnits
  | .iso4217 => unit.code ∈ iso4217Currencies
  | .registered => unit.code ≠ ""

/-- A code that is there is checked. -/
def checkCode {α : Type} (known : α → Bool) (failure : α → VocabError) :
    Option α → Except VocabError Unit
  | none => .ok ()
  | some code => if known code then .ok () else .error (failure code)

def validateFieldSemantics (registries : Registries) (semantics : FieldSemantics) :
    Except VocabError Unit := do
  checkCode (· ∈ registries.fieldIds) .unregisteredFieldId semantics.canonicalFieldId
  checkCode knownUnit (fun unit ↦ .unknownUnit unit.code) semantics.unit
  checkCode (· ∈ namespaceCodes) .unknownNamespace semantics.identifierNamespace
  (semantics.enumSemantics.getD []).forM fun mapping ↦
    checkCode (· ∈ meaningVocabularies) .unknownMeaningVocabulary (some mapping.meaning.vocabulary)

def validateMetadata (registries : Registries) (metadata : SemanticMetadata) :
    Except VocabError Unit := do
  checkCode (· ∈ registries.eventTypeIds) .unregisteredEventType metadata.eventType
  metadata.fields.forM fun field ↦ validateFieldSemantics registries field.semantics

/-! ## What passes -/

/-- Every code of the attributes is known. -/
structure KnownSemantics (registries : Registries) (semantics : FieldSemantics) : Prop where
  canonicalFieldId : ∀ cfid ∈ semantics.canonicalFieldId, cfid ∈ registries.fieldIds
  unit : ∀ unit ∈ semantics.unit, knownUnit unit
  identifierNamespace : ∀ code ∈ semantics.identifierNamespace, code ∈ namespaceCodes
  vocabularies : ∀ mapping ∈ semantics.enumSemantics.getD [],
    mapping.meaning.vocabulary ∈ meaningVocabularies

theorem checkCode_eq_ok {α : Type} {known : α → Bool} {failure : α → VocabError}
    {code : Option α} : checkCode known failure code = .ok () ↔ ∀ found ∈ code, known found := by
  cases code with
  | none => simp [checkCode]
  | some found =>
      unfold checkCode
      by_cases hknown : known found <;> simp [hknown]

theorem validateFieldSemantics_eq_ok {registries : Registries} {semantics : FieldSemantics} :
    validateFieldSemantics registries semantics = .ok () ↔
      KnownSemantics registries semantics := by
  unfold validateFieldSemantics
  simp only [Lib.Except.check_bind_eq_ok, checkCode_eq_ok, Lib.Except.forM_eq_ok,
    decide_eq_true_eq, Option.mem_def, Option.some.injEq, forall_eq']
  constructor
  · rintro ⟨hcfid, hunit, hnamespace, hvocabularies⟩
    exact ⟨hcfid, hunit, hnamespace, hvocabularies⟩
  · rintro ⟨hcfid, hunit, hnamespace, hvocabularies⟩
    exact ⟨hcfid, hunit, hnamespace, hvocabularies⟩

theorem validateMetadata_eq_ok {registries : Registries} {metadata : SemanticMetadata} :
    validateMetadata registries metadata = .ok () ↔
      (∀ event ∈ metadata.eventType, event ∈ registries.eventTypeIds) ∧
        ∀ field ∈ metadata.fields, KnownSemantics registries field.semantics := by
  unfold validateMetadata
  simp only [Lib.Except.check_bind_eq_ok, checkCode_eq_ok, Lib.Except.forM_eq_ok,
    decide_eq_true_eq, validateFieldSemantics_eq_ok]

end Deblob.Semantic
