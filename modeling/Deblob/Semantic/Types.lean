import Deblob.Core.Identity
import Deblob.Lib.Bytes
import Deblob.Umbrella.Types

/-!
# Semantic metadata

What a schema asserts about the meaning of its fields, in codes of controlled vocabularies: an event
type for the whole schema and, for each canonical field path, up to six attributes. Everything that
is derived from metadata writes texts with their length in front.
-/

namespace Deblob.Semantic

open Core Lib

/-- An observed enum value; a number is kept as its text. -/
inductive EnumValue where
  | null
  | bool (value : Bool)
  | number (text : String)
  | string (text : String)
deriving DecidableEq

structure MeaningCode where
  vocabulary : String
  code : String
deriving DecidableEq

structure EnumMapping where
  value : EnumValue
  meaning : MeaningCode
deriving DecidableEq

/-- A wildcard stands for the elements of an array and differs from every key. -/
inductive PathSegment where
  | key (name : String)
  | wildcard
deriving DecidableEq

inductive TemporalKind where
  | instant
  | localDatetime
  | date
  | duration
deriving DecidableEq

inductive TemporalResolution where
  | s
  | ms
  | us
  | ns
deriving DecidableEq

inductive EpochBase where
  | unix
  | registered (code : String)
deriving DecidableEq

structure Temporal where
  kind : Option TemporalKind
  epoch : Option EpochBase
  resolution : Option TemporalResolution
deriving DecidableEq

/-- The attributes of one field; `numericScale` is a 64-bit integer. -/
structure FieldSemantics where
  canonicalFieldId : Option String
  identifierNamespace : Option String
  unit : Option Umbrella.Unit
  numericScale : Option Int64
  temporal : Option Temporal
  enumSemantics : Option (List EnumMapping)
deriving DecidableEq

def FieldSemantics.none : FieldSemantics := ⟨.none, .none, .none, .none, .none, .none⟩

structure FieldEntry where
  path : List PathSegment
  semantics : FieldSemantics
deriving DecidableEq

structure SemanticMetadata where
  eventType : Option String
  fields : List FieldEntry
deriving DecidableEq

/-- `push_lp_str`: a text as UTF-8 after its length. -/
def lpStr (text : String) : Bytes := lengthPrefixed (utf8 text)

end Deblob.Semantic
