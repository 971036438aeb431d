import Deblob.Monoid.Profile
import Deblob.Fingerprint.Canon
import Deblob.Semantic.JsonText
import Deblob.Semantic.Types
import Mathlib.Data.Finset.Insert

/-!
# Field paths of canonical forms

A schema is stored in one of two grammars: the shape a fingerprint is taken of, or the generalized
profile of a promoted candidate. Each is read as JSON and walked for the paths of its fields. The
set of paths is passed along and a walk stops at the first node it does not know.
-/

namespace Deblob.Semantic

open Core Lib Fingerprint Deblob.Monoid
open Umbrella (Value)

inductive PathError where
  | invalidCanonicalJson (message : String)
  | malformedShape
  | malformedMonoidField
  | unknownCanonicalizer (name : String)
deriving DecidableEq

abbrev Paths := Finset (List PathSegment)

mutual

/-- The tag decides which member is walked. -/
def walkShape : Value → List PathSegment → Paths → Except PathError Paths
  | .object entries, current, out =>
    match getEntry entries "t" with
    | some (.string tag) =>
      if tag ∈ ["null", "bool", "num", "str"] then .ok out
      else if tag = "obj" then walkFieldsOf entries current out
      else if tag = "arr" then walkElementsOf entries current out
      else .error .malformedShape
    | _ => .error .malformedShape
  | _, _, _ => .error .malformedShape

/-- The members of the object under `f`. -/
def walkFieldsOf : List (String × Value) → List PathSegment → Paths → Except PathError Paths
  | [], _, _ => .error .malformedShape
  | (name, value) :: entries, current, out =>
    if name = "f" then
      match value with
      | .object fields => walkFields fields current out
      | _ => .error .malformedShape
    else walkFieldsOf entries current out

def walkFields : List (String × Value) → List PathSegment → Paths → Except PathError Paths
  | [], _, out => .ok out
  | (key, value) :: fields, current, out => do
    let out ← walkShape value (current ++ [.key key]) (insert (current ++ [.key key]) out)
    walkFields fields current out

/-- The elements of the array under `of`, which share one segment. -/
def walkElementsOf : List (String × Value) → List PathSegment → Paths → Except PathError Paths
  | [], _, _ => .error .malformedShape
  | (name, value) :: entries, current, out =>
    if name = "of" then
      match value with
      | .array elements =>
        walkElements elements (current ++ [.wildcard]) (insert (current ++ [.wildcard]) out)
      | _ => .error .malformedShape
    else walkElementsOf entries current out

def walkElements : List Value → List PathSegment → Paths → Except PathError Paths
  | [], _, out => .ok out
  | element :: elements, current, out => do
    let out ← walkShape element current out
    walkElements elements current out

end

mutual

/-- Both members are walked if they are there. -/
def walkMonoidField : Value → List PathSegment → Paths → Except PathError Paths
  | .object entries, current, out => do
    let out ← walkChildrenOf entries current out
    walkElemOf entries current out
  | _, _, _ => .error .malformedMonoidField

def walkChildrenOf : List (String × Value) → List PathSegment → Paths → Except PathError Paths
  | [], _, out => .ok out
  | (name, value) :: entries, current, out =>
    if name = "children" then
      match value with
      | .object children => walkChildren children current out
      | _ => .error .malformedMonoidField
    else walkChildrenOf entries current out

def walkChildren : List (String × Value) → List PathSegment → Paths → Except PathError Paths
  | [], _, out => .ok out
  | (key, value) :: children, current, out => do
    let out ← walkMonoidField value (current ++ [.key key]) (insert (current ++ [.key key]) out)
    walkChildren children current out

def walkElemOf : List (String × Value) → List PathSegment → Paths → Except PathError Paths
  | [], _, out => .ok out
  | (name, value) :: entries, current, out =>
    if name = "elem" then
      walkMonoidField value (current ++ [.wildcard]) (insert (current ++ [.wildcard]) out)
    else walkElemOf entries current out

end

section

variable (fromStr : Bytes → Except String Value)

def canonicalFieldPaths (structuralCanonical : Bytes) : Except PathError Paths := do
  let value ← (fromStr structuralCanonical).mapError .invalidCanonicalJson
  walkShape value [] ∅

/-- The grammar is named by the canonicalizer of the record. -/
def canonicalFieldPathsFor (name : String) (structuralCanonical : Bytes) :
    Except PathError Paths := do
  if name = canonicalizer then canonicalFieldPaths fromStr structuralCanonical
  else if name = generalizer then
    let value ← (fromStr structuralCanonical).mapError .invalidCanonicalJson
    walkMonoidField value [] ∅
  else .error (.unknownCanonicalizer name)

end

end Deblob.Semantic
