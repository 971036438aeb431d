import Deblob.Retrieval.Policy
import Deblob.Slm.Prompt

/-!
# The contract with the model

A request carries the rendered prompt and the retrieved families, an answer one of three decisions.
A decision is parsed from the text of the model and may only name a retrieved schema. The JSON
reader is a parameter.
-/

namespace Deblob.Slm

open Core
open Retrieval (InferenceDecision)

structure InferenceBudget where
  maxPromptTokens : ℕ
  timeoutMs : ℕ
deriving DecidableEq

/-- The input of a classification; `Candidate` is the type of the retrieved families. -/
structure InferenceRequest (Candidate : Type) where
  candidate : CandidateProfileView
  retrieved : List Candidate
  contractVersion : ℕ
  budget : InferenceBudget
  prompt : String

inductive InferenceEndpointStatus where
  | ok
  | unavailable
  | timeout
deriving DecidableEq

structure InferenceTelemetry where
  requestTokens : Option ℕ
  responseTokens : Option ℕ
  ttftMs : Option ℕ
  totalLatencyMs : Option ℕ
  repairCount : ℕ
  endpointStatus : InferenceEndpointStatus
  parseError : Bool
  schemaValidationError : Bool
  modelId : Option String
deriving DecidableEq

structure InferenceOutcome where
  decision : InferenceDecision
  telemetry : InferenceTelemetry
deriving DecidableEq

inductive ContractError where
  | idNotAllowed
  | unknownField
  | malformed (message : String)
deriving DecidableEq

/-- The errors of the reader are told apart by their texts. -/
def readError (message : String) : ContractError :=
  if contains message "unknown field" then .unknownField else .malformed message

def validateDecision (fromStr : String → Except String InferenceDecision) (raw : String)
    (allowedIds : List SchemaId) : Except ContractError InferenceDecision :=
  match fromStr raw with
  | .error message => .error (readError message)
  | .ok (.matchSchema schemaId relation) =>
    if schemaId ∈ allowedIds then .ok (.matchSchema schemaId relation) else .error .idNotAllowed
  | .ok decision => .ok decision

end Deblob.Slm
