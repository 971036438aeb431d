import Deblob.Core.Identity
import Deblob.Lib.Parser
import Mathlib.Data.List.Sort
import Mathlib.Data.String.Basic

/-!
# The bounded JSON parser

Object keys and array elements are limited during the walk. Elements past `max_array_inspect` are
walked by a second set of functions that build nothing. Depths and lengths are natural numbers: a
counter of the source would need a document of 2^32 bytes to overflow.
-/

namespace Deblob.Fingerprint

open Core Lib
open Lib.Parser (peek bump require loop)

structure Limits where
  maxBytes : ℕ
  maxDepth : ℕ
  maxFieldsPerObject : ℕ
  maxKeyLen : ℕ
  maxStringLen : ℕ
  maxArrayInspect : ℕ

/-- The default limits. -/
instance : Inhabited Limits where
  default :=
    { maxBytes := 1024 * 1024
      maxDepth := 32
      maxFieldsPerObject := 1024
      maxKeyLen := 256
      maxStringLen := 64 * 1024
      maxArrayInspect := 4096 }

/-- A parsed value; `truncated` says that elements were skipped. -/
inductive Node where
  | null
  | bool (value : Bool)
  | number (text : String)
  | string (text : String)
  | array (items : List Node) (truncated : Bool)
  | object (fields : List (String × Node))

/-- The reason a loop that ran out of bytes would report. -/
instance : Inhabited QuarantineReason := ⟨.parseError⟩

abbrev Parser (α : Type) := Lib.Parser QuarantineReason α

/-- The bytes of an ASCII literal. -/
def ascii (text : String) : List UInt8 := text.toList.map Char.toUInt8

def isWs (byte : UInt8) : Bool := Char.ofUInt8 byte ∈ [' ', '\t', '\n', '\r']

def isDigit (byte : UInt8) : Bool := (Char.ofUInt8 byte).isDigit

def skipWs : Parser Unit := Parser.skipWhile isWs

/-- The next byte is `char`. -/
def isNext (char : Char) : Parser Bool := do
  return (← peek).map Char.ofUInt8 = some char

def expect (char : Char) : Parser Unit := do
  let next ← bump
  require (next.map Char.ofUInt8 = some char) .parseError

/-! ## Strings -/

def readHexDigit : Parser ℕ := do
  match (← bump).map Char.ofUInt8 with
  | some char =>
    if '0' ≤ char ∧ char ≤ '9' then return char.toNat - '0'.toNat
    else if 'a' ≤ char ∧ char ≤ 'f' then return char.toNat - 'a'.toNat + 10
    else if 'A' ≤ char ∧ char ≤ 'F' then return char.toNat - 'A'.toNat + 10
    else throw .parseError
  | none => throw .parseError

/-- The value of the next hex digits behind those read so far. -/
def readHex : ℕ → ℕ → Parser ℕ
  | 0, value => return value
  | digits + 1, value => do readHex digits (value * 16 + (← readHexDigit))

def readHex4 : Parser ℕ := readHex 4 0

def charFromU32 (scalar : ℕ) : Option Char :=
  if hvalid : scalar.isValidChar then some (Char.ofNatAux scalar hvalid) else none

def orUtf8Error {α : Type} : Option α → Parser α
  | some value => return value
  | none => throw .utf8Error

/-- `XXXX` behind `\u`, with the second half of a surrogate pair. -/
def readUnicodeEscape : Parser Char := do
  let hi ← readHex4
  if 0xD800 ≤ hi ∧ hi ≤ 0xDBFF then
    expect '\\'
    expect 'u'
    let lo ← readHex4
    require (0xDC00 ≤ lo ∧ lo ≤ 0xDFFF) .parseError
    orUtf8Error (charFromU32 (0x10000 + (hi - 0xD800) * 2 ^ 10 + (lo - 0xDC00)))
  else orUtf8Error (charFromU32 hi)

/-- The bytes an escape behind its backslash stands for. -/
def readEscape : Parser (List UInt8) := do
  match (← bump).map Char.ofUInt8 with
  | some '"' => return [0x22]
  | some '\\' => return [0x5C]
  | some '/' => return [0x2F]
  | some 'b' => return [0x08]
  | some 'f' => return [0x0C]
  | some 'n' => return [0x0A]
  | some 'r' => return [0x0D]
  | some 't' => return [0x09]
  | some 'u' => return String.utf8EncodeChar (← readUnicodeEscape)
  | _ => throw .parseError

/-- One round of the string scanner. -/
def scanRawByte (buf : List UInt8) : Parser (List UInt8 ⊕ List UInt8) := do
  match ← bump with
  | none => throw .parseError
  | some byte =>
    if Char.ofUInt8 byte = '"' then return .inr buf
    else if Char.ofUInt8 byte = '\\' then return .inl (buf ++ (← readEscape))
    else if byte < 0x20 then throw .parseError
    else return .inl (buf ++ [byte])

def scanRawString : Parser String := do
  let _ ← bump
  let buf ← loop scanRawByte []
  orUtf8Error (String.fromUTF8? buf.toByteArray)

def parseKey (limits : Limits) : Parser String := do
  let key ← scanRawString
  require (key.utf8ByteSize ≤ limits.maxKeyLen) .keyLengthExceeded
  return key

def parseString (limits : Limits) : Parser String := do
  let text ← scanRawString
  require (text.utf8ByteSize ≤ limits.maxStringLen) .sizeExceeded
  return text

/-! ## Numbers and literals -/

/-- Skip one byte if it is one of `chars`. -/
def skipOptional (chars : List Char) : Parser Unit := do
  match ← peek with
  | some byte => if Char.ofUInt8 byte ∈ chars then let _ ← bump else pure ()
  | none => pure ()

/-- At least one digit. -/
def skipDigits : Parser Unit := do
  let next ← peek
  require (next.any isDigit) .parseError
  Parser.skipWhile isDigit

def skipInteger : Parser Unit := do
  skipOptional ['-']
  match ← bump with
  | some byte =>
    if Char.ofUInt8 byte = '0' then pure ()
    else if isDigit byte then Parser.skipWhile isDigit
    else throw .parseError
  | none => throw .parseError

def skipFraction : Parser Unit := do
  if ← isNext '.' then
    let _ ← bump
    skipDigits
  else pure ()

def skipExponent : Parser Unit := do
  match (← peek).map Char.ofUInt8 with
  | some 'e' | some 'E' =>
    let _ ← bump
    skipOptional ['+', '-']
    skipDigits
  | _ => pure ()

/-- The source text of a number. -/
def parseNumber : Parser String := do
  let start ← get
  skipInteger
  skipFraction
  skipExponent
  let rest ← get
  orUtf8Error (String.fromUTF8? (start.take (start.length - rest.length)).toByteArray)

def skipLiteral (keyword : String) : Parser Unit := fun rest ↦
  if (ascii keyword).isPrefixOf rest then .ok ((), rest.drop (ascii keyword).length)
  else .error .parseError

def parseLiteral {α : Type} (keyword : String) (node : α) : Parser α := do
  skipLiteral keyword
  return node

/-! ## Values -/

/-- The dispatch on the first byte of a value; `leaf` is what is made of a scalar. -/
def dispatch {α : Type} (limits : Limits) (leaf : Node → α) (object array : Parser α) :
    Parser α := do
  skipWs
  match (← peek).map Char.ofUInt8 with
  | some '{' => object
  | some '[' => array
  | some '"' => return leaf (.string (← parseString limits))
  | some 't' => parseLiteral "true" (leaf (.bool true))
  | some 'f' => parseLiteral "false" (leaf (.bool false))
  | some 'n' => parseLiteral "null" (leaf .null)
  | some char =>
    if char = '-' ∨ char.isDigit then return leaf (.number (← parseNumber)) else throw .parseError
  | none => throw .parseError

/-- The separator behind an element decides whether the container goes on. -/
def separator {σ α : Type} (close : Char) (finish : σ → α) (state : σ) : Parser (σ ⊕ α) := do
  let next ← bump
  if next.map Char.ofUInt8 = some ',' then return .inl state
  else if next.map Char.ofUInt8 = some close then return .inr (finish state)
  else throw .parseError

/-- One round of a container's loop. -/
def containerRound {σ α : Type} (close : Char) (element : σ → Parser σ) (finish : σ → α)
    (state : σ) : Parser (σ ⊕ α) := do
  let state ← element state
  skipWs
  separator close finish state

/-- A container from its opening byte on: comma-separated elements up to `close`. -/
def container {σ α : Type} (close : Char) (element : σ → Parser σ) (finish : σ → α) (init : σ) :
    Parser α := do
  let _ ← bump
  skipWs
  if ← isNext close then
    let _ ← bump
    return finish init
  else loop (containerRound close element finish) init

/-- A member's key. -/
def memberKey (limits : Limits) : Parser String := do
  skipWs
  let quote ← isNext '"'
  require quote .parseError
  parseKey limits

def colon : Parser Unit := do
  skipWs
  expect ':'

/-- `seen` is kept sorted, so that the test for membership can be a binary search. -/
def parseMember (limits : Limits) (parseValue : Parser Node)
    (state : List (String × Node) × List String) :
    Parser (List (String × Node) × List String) := do
  let (fields, seen) := state
  let key ← memberKey limits
  require (key ∉ seen) .duplicateKey
  colon
  let value ← parseValue
  require (fields.length + 1 ≤ limits.maxFieldsPerObject) .fieldCountExceeded
  return (fields ++ [(key, value)], seen.orderedInsert (· ≤ ·) key)

def parseObject (limits : Limits) (parseValue : Parser Node) : Parser Node :=
  container '}' (parseMember limits parseValue) (fun (fields, _) ↦ .object fields) ([], [])

def skipMember (limits : Limits) (skipValue : Parser Unit) (_ : Unit) : Parser Unit := do
  let _ ← memberKey limits
  colon
  skipValue

def skipObject (limits : Limits) (skipValue : Parser Unit) : Parser Unit :=
  container '}' (skipMember limits skipValue) id ()

def skipArray (skipValue : Parser Unit) : Parser Unit :=
  container ']' (fun _ ↦ skipValue) id ()

/-- The state of the array loop. -/
structure ArrayState where
  items : List Node
  truncated : Bool
  index : ℕ

def parseElement (limits : Limits) (parseValue : Parser Node) (skipValue : Parser Unit)
    (state : ArrayState) : Parser ArrayState := do
  skipWs
  if state.index < limits.maxArrayInspect then
    let value ← parseValue
    return { state with items := state.items ++ [value], index := state.index + 1 }
  else
    skipValue
    return { state with truncated := true, index := state.index + 1 }

def parseArray (limits : Limits) (parseValue : Parser Node) (skipValue : Parser Unit) :
    Parser Node :=
  container ']' (parseElement limits parseValue skipValue)
    (fun state ↦ .array state.items state.truncated) ⟨[], false, 0⟩

/-- `levels` is how many containers may still open, `max_depth - depth`. -/
def skipValue (limits : Limits) : ℕ → Parser Unit
  | 0 => dispatch limits (fun _ ↦ ()) (throw .depthExceeded) (throw .depthExceeded)
  | levels + 1 => dispatch limits (fun _ ↦ ()) (skipObject limits (skipValue limits levels))
      (skipArray (skipValue limits levels))

def parseValue (limits : Limits) : ℕ → Parser Node
  | 0 => dispatch limits id (throw .depthExceeded) (throw .depthExceeded)
  | levels + 1 => dispatch limits id (parseObject limits (parseValue limits levels))
      (parseArray limits (parseValue limits levels) (skipValue limits levels))

/-- A whole document: one value, and nothing behind it but white space. -/
def document {α : Type} (limits : Limits) (value : Parser α) (bytes : List UInt8) :
    Except QuarantineReason α :=
  if limits.maxBytes < bytes.length then .error .sizeExceeded
  else StateT.run' (s := bytes) do
    let node ← value
    skipWs
    let rest ← get
    require (rest = []) .parseError
    return node

def parseBounded (bytes : List UInt8) (limits : Limits) : Except QuarantineReason Node :=
  document limits (parseValue limits limits.maxDepth) bytes

/-! ## Progress -/

open Lib.Parser

theorem shrinks_skipWs : Shrinks skipWs := shrinks_skipWhile _

theorem shrinks_isNext (char : Char) : Shrinks (isNext char) :=
  shrinks_peek.bind fun _ ↦ shrinks_pure _

theorem shrinks_expect (char : Char) : Shrinks (expect char) :=
  shrinks_bump.bind fun _ ↦ shrinks_require _ _

theorem shrinks_orUtf8Error {α : Type} (value : Option α) : Shrinks (orUtf8Error value) := by
  cases value
  · exact (consumes_throw _).shrinks
  · exact shrinks_pure _

theorem shrinks_readHexDigit : Shrinks readHexDigit := by
  refine shrinks_bump.bind fun next ↦ ?_
  split
  · split_ifs <;> first | exact shrinks_pure _ | exact (consumes_throw _).shrinks
  · exact (consumes_throw _).shrinks

theorem shrinks_readHex (digits : ℕ) : ∀ value, Shrinks (readHex digits value) := by
  induction digits with
  | zero => exact fun value ↦ shrinks_pure _
  | succ digits ih => exact fun value ↦ shrinks_readHexDigit.bind fun _ ↦ ih _

theorem shrinks_readUnicodeEscape : Shrinks readUnicodeEscape := by
  refine (shrinks_readHex 4 0).bind fun hi ↦ ?_
  split_ifs
  · exact (shrinks_expect _).bind fun _ ↦ (shrinks_expect _).bind fun _ ↦
      (shrinks_readHex 4 0).bind fun _ ↦ (shrinks_require _ _).bind fun _ ↦ shrinks_orUtf8Error _
  · exact shrinks_orUtf8Error _

theorem shrinks_readEscape : Shrinks readEscape := by
  refine shrinks_bump.bind fun next ↦ ?_
  split
  case h_9 => exact shrinks_readUnicodeEscape.bind fun _ ↦ shrinks_pure _
  case h_10 => exact (consumes_throw _).shrinks
  all_goals exact shrinks_pure _

theorem consumes_scanRawByte (buf : List UInt8) : Consumes (scanRawByte buf) := by
  refine consumes_bump_bind (fun _ _ ↦ throw_ne_ok) fun byte ↦ ?_
  dsimp only
  split_ifs
  · exact shrinks_pure _
  · exact shrinks_readEscape.bind fun _ ↦ shrinks_pure _
  · exact (consumes_throw _).shrinks
  · exact shrinks_pure _

theorem consumes_scanRawString : Consumes scanRawString :=
  shrinks_bump.bind_consumes fun _ ↦
    (consumes_loop consumes_scanRawByte []).bind fun _ ↦ shrinks_orUtf8Error _

theorem consumes_parseKey (limits : Limits) : Consumes (parseKey limits) :=
  consumes_scanRawString.bind fun _ ↦ (shrinks_require _ _).bind fun _ ↦ shrinks_pure _

theorem consumes_parseString (limits : Limits) : Consumes (parseString limits) :=
  consumes_scanRawString.bind fun _ ↦ (shrinks_require _ _).bind fun _ ↦ shrinks_pure _

theorem shrinks_skipOptional (chars : List Char) : Shrinks (skipOptional chars) := by
  refine shrinks_peek.bind fun next ↦ ?_
  split
  · split_ifs
    · exact shrinks_bump.bind fun _ ↦ shrinks_pure _
    · exact shrinks_pure _
  · exact shrinks_pure _

theorem shrinks_skipDigits : Shrinks skipDigits :=
  shrinks_peek.bind fun _ ↦ (shrinks_require _ _).bind fun _ ↦ shrinks_skipWhile _

theorem consumes_skipInteger : Consumes skipInteger := by
  refine (shrinks_skipOptional _).bind_consumes fun _ ↦
    consumes_bump_bind (fun _ _ ↦ throw_ne_ok) fun byte ↦ ?_
  dsimp only
  split_ifs
  · exact shrinks_pure _
  · exact shrinks_skipWhile _
  · exact (consumes_throw _).shrinks

theorem shrinks_skipFraction : Shrinks skipFraction := by
  refine (shrinks_isNext _).bind fun next ↦ ?_
  split_ifs
  · exact shrinks_bump.bind fun _ ↦ shrinks_skipDigits
  · exact shrinks_pure _

theorem shrinks_skipExponent : Shrinks skipExponent := by
  have hexponent : Shrinks (do let _ ← bump; skipOptional ['+', '-']; skipDigits) :=
    shrinks_bump.bind fun _ ↦ (shrinks_skipOptional _).bind fun _ ↦ shrinks_skipDigits
  refine shrinks_peek.bind fun next ↦ ?_
  split
  · exact hexponent
  · exact hexponent
  · exact shrinks_pure _

theorem shrinks_get : Shrinks (get : Parser _) := by
  rintro rest result left ⟨⟩
  exact le_rfl

theorem consumes_parseNumber : Consumes parseNumber :=
  shrinks_get.bind_consumes fun _ ↦ consumes_skipInteger.bind fun _ ↦
    shrinks_skipFraction.bind fun _ ↦ shrinks_skipExponent.bind fun _ ↦
      shrinks_get.bind fun _ ↦ shrinks_orUtf8Error _

theorem consumes_parseLiteral {α : Type} {keyword : String} (hkeyword : ascii keyword ≠ [])
    (node : α) : Consumes (parseLiteral keyword node) := by
  refine Consumes.bind ?_ fun _ ↦ shrinks_pure _
  intro rest result left hrun
  unfold skipLiteral at hrun
  split_ifs at hrun with hprefix
  obtain ⟨tail, rfl⟩ := List.isPrefixOf_iff_prefix.mp hprefix
  obtain rfl : tail = left := by simpa using hrun
  simpa using List.length_pos_iff.mpr hkeyword

theorem consumes_dispatch {α : Type} (limits : Limits) (leaf : Node → α) {object array : Parser α}
    (hobject : Consumes object) (harray : Consumes array) :
    Consumes (dispatch limits leaf object array) := by
  refine shrinks_skipWs.bind_consumes fun _ ↦ shrinks_peek.bind_consumes fun next ↦ ?_
  split
  · exact hobject
  · exact harray
  · exact (consumes_parseString limits).bind fun _ ↦ shrinks_pure _
  · exact consumes_parseLiteral (by decide) _
  · exact consumes_parseLiteral (by decide) _
  · exact consumes_parseLiteral (by decide) _
  · split_ifs
    · exact consumes_parseNumber.bind fun _ ↦ shrinks_pure _
    · exact consumes_throw _
  · exact consumes_throw _

section Container

variable {σ α : Type} {close : Char} {element : σ → Parser σ} {finish : σ → α}

theorem shrinks_separator (state : σ) : Shrinks (separator close finish state) := by
  refine shrinks_bump.bind fun next ↦ ?_
  split_ifs <;> first | exact shrinks_pure _ | exact (consumes_throw _).shrinks

theorem consumes_containerRound (helement : ∀ state, Consumes (element state)) (state : σ) :
    Consumes (containerRound close element finish state) :=
  (helement state).bind fun next ↦ shrinks_skipWs.bind fun _ ↦ shrinks_separator next

theorem consumes_container (helement : ∀ state, Consumes (element state)) (init : σ) :
    Consumes (container close element finish init) := by
  have hloop : Consumes (loop (containerRound close element finish) init) :=
    consumes_loop (consumes_containerRound helement) init
  refine consumes_bump_bind (fun result left hrun ↦ ?_) fun _ ↦ ?_
  · exact Nat.not_lt_zero _ (hloop [] result left hrun)
  · refine shrinks_skipWs.bind fun _ ↦ (shrinks_isNext _).bind fun closed ↦ ?_
    split_ifs
    · exact shrinks_bump.bind fun _ ↦ shrinks_pure _
    · exact hloop.shrinks

end Container

theorem consumes_memberKey (limits : Limits) : Consumes (memberKey limits) :=
  shrinks_skipWs.bind_consumes fun _ ↦ (shrinks_isNext _).bind_consumes fun _ ↦
    (shrinks_require _ _).bind_consumes fun _ ↦ consumes_parseKey limits

theorem shrinks_colon : Shrinks colon := shrinks_skipWs.bind fun _ ↦ shrinks_expect _

theorem consumes_parseMember (limits : Limits) {value : Parser Node} (hvalue : Consumes value)
    (state : List (String × Node) × List String) : Consumes (parseMember limits value state) :=
  (consumes_memberKey limits).bind fun _ ↦ (shrinks_require _ _).bind fun _ ↦
    shrinks_colon.bind fun _ ↦ hvalue.shrinks.bind fun _ ↦
      (shrinks_require _ _).bind fun _ ↦ shrinks_pure _

theorem consumes_skipMember (limits : Limits) {skip : Parser Unit} (hskip : Consumes skip)
    (state : Unit) : Consumes (skipMember limits skip state) :=
  (consumes_memberKey limits).bind fun _ ↦ shrinks_colon.bind fun _ ↦ hskip.shrinks

theorem consumes_parseElement (limits : Limits) {value : Parser Node} {skip : Parser Unit}
    (hvalue : Consumes value) (hskip : Consumes skip) (state : ArrayState) :
    Consumes (parseElement limits value skip state) := by
  refine shrinks_skipWs.bind_consumes fun _ ↦ ?_
  split_ifs
  · exact hvalue.bind fun _ ↦ shrinks_pure _
  · exact hskip.bind fun _ ↦ shrinks_pure _

theorem consumes_skipValue (limits : Limits) (levels : ℕ) : Consumes (skipValue limits levels) := by
  induction levels with
  | zero => exact consumes_dispatch limits _ (consumes_throw _) (consumes_throw _)
  | succ levels ih =>
      exact consumes_dispatch limits _ (consumes_container (consumes_skipMember limits ih) ())
        (consumes_container (fun _ ↦ ih) ())

/-- Every value takes a byte, so no loop of the parser runs out of rounds. -/
theorem consumes_parseValue (limits : Limits) (levels : ℕ) :
    Consumes (parseValue limits levels) := by
  induction levels with
  | zero => exact consumes_dispatch limits _ (consumes_throw _) (consumes_throw _)
  | succ levels ih =>
      exact consumes_dispatch limits _ (consumes_container (consumes_parseMember limits ih) _)
        (consumes_container (consumes_parseElement limits ih (consumes_skipValue limits levels)) _)

end Deblob.Fingerprint
