import Deblob.Umbrella.Types

/-!
# The unit registry

A closed table of dimensions and a closed table of linear conversion rules. The table of rules is
read over any numbers with decimal literals, so that it serves 64-bit floats and exact rationals.
-/

namespace Deblob.Umbrella

inductive Dimension where
  | temperature
  | pressure
  | power
  | energy
  | time
  | length
  | dimensionless
  | currency
deriving DecidableEq

/-- The conversion `value * factor + offset`. -/
structure ConversionRule (F : Type) where
  ruleId : String
  fromCode : String
  toCode : String
  factor : F
  offset : F

inductive UnitError where
  | unknownCode (code : String)
  | unknownRule (ruleId : String)
  | ruleMismatch (ruleId source target : String)
  | dimensionMismatch (source : String) (sourceDim : Dimension) (target : String)
      (targetDim : Dimension)
  | currencyNotConvertible (source target : String)
deriving DecidableEq

def dimensions : List (String × Dimension) :=
  [("Cel", .temperature), ("K", .temperature), ("[degF]", .temperature),
    ("Pa", .pressure), ("hPa", .pressure), ("kPa", .pressure), ("bar", .pressure),
    ("W", .power), ("kW", .power), ("MW", .power), ("GW", .power),
    ("J", .energy), ("kW.h", .energy), ("MW.h", .energy),
    ("s", .time), ("min", .time), ("h", .time),
    ("m", .length), ("km", .length),
    ("1", .dimensionless), ("%", .dimensionless)]

section Rules

variable {F : Type} [OfScientific F] [Neg F]

def rules : List (ConversionRule F) :=
  [⟨"ucum:Cel->K", "Cel", "K", 1.0, 273.15⟩,
    ⟨"ucum:K->Cel", "K", "Cel", 1.0, -273.15⟩,
    ⟨"ucum:hPa->Pa", "hPa", "Pa", 100.0, 0.0⟩,
    ⟨"ucum:Pa->hPa", "Pa", "hPa", 0.01, 0.0⟩,
    ⟨"ucum:kPa->Pa", "kPa", "Pa", 1000.0, 0.0⟩,
    ⟨"ucum:kW->W", "kW", "W", 1000.0, 0.0⟩,
    ⟨"ucum:MW->W", "MW", "W", 1000000.0, 0.0⟩,
    ⟨"ucum:GW->W", "GW", "W", 1000000000.0, 0.0⟩,
    ⟨"ucum:W->kW", "W", "kW", 0.001, 0.0⟩,
    ⟨"ucum:W->MW", "W", "MW", 0.000001, 0.0⟩,
    ⟨"ucum:km->m", "km", "m", 1000.0, 0.0⟩,
    ⟨"ucum:m->km", "m", "km", 0.001, 0.0⟩,
    ⟨"ucum:h->s", "h", "s", 3600.0, 0.0⟩,
    ⟨"ucum:min->s", "min", "s", 60.0, 0.0⟩]

def rule (ruleId : String) : Option (ConversionRule F) :=
  rules.find? fun rule ↦ rule.ruleId = ruleId

/-- Apply a rule; an unknown rule is an error. -/
def convert [Mul F] [Add F] (value : F) (ruleId : String) : Except UnitError F :=
  match rule ruleId with
  | none => .error (.unknownRule ruleId)
  | some rule => .ok (value * rule.factor + rule.offset)

end Rules

/-- Currencies form a dimension whatever their code. -/
def dimensionOf (unit : Unit) : Option Dimension :=
  match unit.system with
  | .iso4217 => some .currency
  | .ucum | .registered => dimensions.lookup unit.code

/-- The static check of a conversion; a currency converts to itself under any rule id. -/
def verifyConversion (source target : Unit) (ruleId : String) : Except UnitError PUnit.{1} :=
  if source.system = .iso4217 ∨ target.system = .iso4217 then
    if source = target then .ok ⟨⟩
    else .error (.currencyNotConvertible source.code target.code)
  else
    match dimensionOf source, dimensionOf target with
    | none, _ => .error (.unknownCode source.code)
    | _, none => .error (.unknownCode target.code)
    | some sourceDim, some targetDim =>
      if sourceDim ≠ targetDim then
        .error (.dimensionMismatch source.code sourceDim target.code targetDim)
      else
        match (rule ruleId : Option (ConversionRule Float)) with
        | none => .error (.unknownRule ruleId)
        | some rule =>
          if rule.fromCode ≠ source.code ∨ rule.toCode ≠ target.code then
            .error (.ruleMismatch ruleId source.code target.code)
          else .ok ⟨⟩

end Deblob.Umbrella
