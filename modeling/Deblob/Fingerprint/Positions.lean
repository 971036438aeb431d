import Deblob.Fingerprint.Parse
import Deblob.Lib.Scanner

/-!
# The parser at its positions

The parser of the source holds an index into a slice, and its loops and calls have no bound. Here
each index is checked, and a run is given so many rounds for a loop and so many nested calls. With
more rounds than bytes and more calls than levels it is the parser over the bytes that are left: it
neither reads outside of the slice nor runs on forever.
-/

namespace Deblob.Fingerprint

open Core Lib
open Lib.Scanner (slice skipWhile require loop fail Tracks position)

abbrev Scanner (α : Type) := Lib.Scanner QuarantineReason α

/-- What a parser borrows, with the rounds and the nested calls of its run. -/
structure Input where
  bytes : List UInt8
  limits : Limits
  rounds : ℕ
  calls : ℕ
  bytes_lt : bytes.length < rounds
  depth_lt : limits.maxDepth < calls

namespace Input

variable (input : Input)

def peek : Scanner (Option UInt8) := Lib.Scanner.peek input.bytes

def bump : Scanner (Option UInt8) := Lib.Scanner.bump input.bytes

def skipWs : Scanner Unit := skipWhile input.bytes isWs input.rounds

def isNext (char : Char) : Scanner Bool := do
  return (← input.peek).map Char.ofUInt8 = some char

def expect (char : Char) : Scanner Unit := do
  let next ← input.bump
  require (next.map Char.ofUInt8 = some char) .parseError

/-! ## Strings -/

def readHexDigit : Scanner ℕ := do
  match (← input.bump).map Char.ofUInt8 with
  | some char =>
    if '0' ≤ char ∧ char ≤ '9' then return char.toNat - '0'.toNat
    else if 'a' ≤ char ∧ char ≤ 'f' then return char.toNat - 'a'.toNat + 10
    else if 'A' ≤ char ∧ char ≤ 'F' then return char.toNat - 'A'.toNat + 10
    else fail .parseError
  | none => fail .parseError

def readHex : ℕ → ℕ → Scanner ℕ
  | 0, value => return value
  | digits + 1, value => do readHex digits (value * 16 + (← input.readHexDigit))

def readHex4 : Scanner ℕ := input.readHex 4 0

def orUtf8Error {α : Type} : Option α → Scanner α
  | some value => return value
  | none => fail .utf8Error

def readUnicodeEscape : Scanner Char := do
  let hi ← input.readHex4
  if 0xD800 ≤ hi ∧ hi ≤ 0xDBFF then
    input.expect '\\'
    input.expect 'u'
    let lo ← input.readHex4
    require (0xDC00 ≤ lo ∧ lo ≤ 0xDFFF) .parseError
    orUtf8Error (charFromU32 (0x10000 + (hi - 0xD800) * 2 ^ 10 + (lo - 0xDC00)))
  else orUtf8Error (charFromU32 hi)

def readEscape : Scanner (List UInt8) := do
  match (← input.bump).map Char.ofUInt8 with
  | some '"' => return [0x22]
  | some '\\' => return [0x5C]
  | some '/' => return [0x2F]
  | some 'b' => return [0x08]
  | some 'f' => return [0x0C]
  | some 'n' => return [0x0A]
  | some 'r' => return [0x0D]
  | some 't' => return [0x09]
  | some 'u' => return String.utf8EncodeChar (← input.readUnicodeEscape)
  | _ => fail .parseError

def scanRawByte (buf : List UInt8) : Scanner (List UInt8 ⊕ List UInt8) := do
  match ← input.bump with
  | none => fail .parseError
  | some byte =>
    if Char.ofUInt8 byte = '"' then return .inr buf
    else if Char.ofUInt8 byte = '\\' then return .inl (buf ++ (← input.readEscape))
    else if byte < 0x20 then fail .parseError
    else return .inl (buf ++ [byte])

def scanRawString : Scanner String := do
  let _ ← input.bump
  let buf ← loop input.scanRawByte input.rounds []
  orUtf8Error (String.fromUTF8? buf.toByteArray)

def parseKey : Scanner String := do
  let key ← input.scanRawString
  require (key.utf8ByteSize ≤ input.limits.maxKeyLen) .keyLengthExceeded
  return key

def parseString : Scanner String := do
  let text ← input.scanRawString
  require (text.utf8ByteSize ≤ input.limits.maxStringLen) .sizeExceeded
  return text

/-! ## Numbers and literals -/

def skipOptional (chars : List Char) : Scanner Unit := do
  match ← input.peek with
  | some byte => if Char.ofUInt8 byte ∈ chars then let _ ← input.bump else pure ()
  | none => pure ()

def skipDigits : Scanner Unit := do
  let next ← input.peek
  require (next.any isDigit) .parseError
  skipWhile input.bytes isDigit input.rounds

def skipInteger : Scanner Unit := do
  input.skipOptional ['-']
  match ← input.bump with
  | some byte =>
    if Char.ofUInt8 byte = '0' then pure ()
    else if isDigit byte then skipWhile input.bytes isDigit input.rounds
    else fail .parseError
  | none => fail .parseError

def skipFraction : Scanner Unit := do
  if ← input.isNext '.' then
    let _ ← input.bump
    input.skipDigits
  else pure ()

def skipExponent : Scanner Unit := do
  match (← input.peek).map Char.ofUInt8 with
  | some 'e' | some 'E' =>
    let _ ← input.bump
    input.skipOptional ['+', '-']
    input.skipDigits
  | _ => pure ()

/-- The slice of the input from where the number began. -/
def parseNumber : Scanner String := do
  let start ← get
  input.skipInteger
  input.skipFraction
  input.skipExponent
  let pos ← get
  let text ← slice input.bytes start pos
  orUtf8Error (String.fromUTF8? text.toByteArray)

def skipLiteral (keyword : String) : Scanner Unit := do
  let pos ← get
  let rest ← slice input.bytes pos input.bytes.length
  if (ascii keyword).isPrefixOf rest then set (pos + (ascii keyword).length) else fail .parseError

def parseLiteral {α : Type} (keyword : String) (node : α) : Scanner α := do
  input.skipLiteral keyword
  return node

/-! ## Values -/

def dispatch {α : Type} (leaf : Node → α) (object array : Scanner α) : Scanner α := do
  input.skipWs
  match (← input.peek).map Char.ofUInt8 with
  | some '{' => object
  | some '[' => array
  | some '"' => return leaf (.string (← input.parseString))
  | some 't' => input.parseLiteral "true" (leaf (.bool true))
  | some 'f' => input.parseLiteral "false" (leaf (.bool false))
  | some 'n' => input.parseLiteral "null" (leaf .null)
  | some char =>
    if char = '-' ∨ char.isDigit then return leaf (.number (← input.parseNumber))
    else fail .parseError
  | none => fail .parseError

def separator {σ α : Type} (close : Char) (finish : σ → α) (state : σ) : Scanner (σ ⊕ α) := do
  let next ← input.bump
  if next.map Char.ofUInt8 = some ',' then return .inl state
  else if next.map Char.ofUInt8 = some close then return .inr (finish state)
  else fail .parseError

def containerRound {σ α : Type} (close : Char) (element : σ → Scanner σ) (finish : σ → α)
    (state : σ) : Scanner (σ ⊕ α) := do
  let state ← element state
  input.skipWs
  input.separator close finish state

/-- A container at `depth`; its elements are one level deeper. -/
def container {σ α : Type} (close : Char) (element : ℕ → σ → Scanner σ) (finish : σ → α)
    (init : σ) (depth : ℕ) : Scanner α :=
  if input.limits.maxDepth < depth + 1 then fail .depthExceeded
  else do
    let _ ← input.bump
    input.skipWs
    if ← input.isNext close then
      let _ ← input.bump
      return finish init
    else loop (input.containerRound close (element (depth + 1)) finish) input.rounds init

def memberKey : Scanner String := do
  input.skipWs
  let quote ← input.isNext '"'
  require quote .parseError
  input.parseKey

def colon : Scanner Unit := do
  input.skipWs
  input.expect ':'

def parseMember (parseValue : Scanner Node) (state : List (String × Node) × List String) :
    Scanner (List (String × Node) × List String) := do
  let (fields, seen) := state
  let key ← input.memberKey
  require (key ∉ seen) .duplicateKey
  input.colon
  let value ← parseValue
  require (fields.length + 1 ≤ input.limits.maxFieldsPerObject) .fieldCountExceeded
  return (fields ++ [(key, value)], seen.orderedInsert (· ≤ ·) key)

def parseObject (parseValue : ℕ → Scanner Node) : ℕ → Scanner Node :=
  input.container '}' (fun depth ↦ input.parseMember (parseValue depth))
    (fun (fields, _) ↦ .object fields) ([], [])

def skipMember (skipValue : Scanner Unit) (_ : Unit) : Scanner Unit := do
  let _ ← input.memberKey
  input.colon
  skipValue

def skipObject (skipValue : ℕ → Scanner Unit) : ℕ → Scanner Unit :=
  input.container '}' (fun depth ↦ input.skipMember (skipValue depth)) id ()

def skipArray (skipValue : ℕ → Scanner Unit) : ℕ → Scanner Unit :=
  input.container ']' (fun depth _ ↦ skipValue depth) id ()

def parseElement (parseValue : Scanner Node) (skipValue : Scanner Unit) (state : ArrayState) :
    Scanner ArrayState := do
  input.skipWs
  if state.index < input.limits.maxArrayInspect then
    let value ← parseValue
    return { state with items := state.items ++ [value], index := state.index + 1 }
  else
    skipValue
    return { state with truncated := true, index := state.index + 1 }

def parseArray (parseValue : ℕ → Scanner Node) (skipValue : ℕ → Scanner Unit) :
    ℕ → Scanner Node :=
  input.container ']' (fun depth ↦ input.parseElement (parseValue depth) (skipValue depth))
    (fun state ↦ .array state.items state.truncated) ⟨[], false, 0⟩

/-- The walk past a value at `depth`, within so many nested calls. -/
def skipValue : ℕ → ℕ → Scanner Unit
  | 0, _ => throw .endless
  | calls + 1, depth => input.dispatch (fun _ ↦ ()) (input.skipObject (skipValue calls) depth)
      (input.skipArray (skipValue calls) depth)

def parseValue : ℕ → ℕ → Scanner Node
  | 0, _ => throw .endless
  | calls + 1, depth => input.dispatch id (input.parseObject (parseValue calls) depth)
      (input.parseArray (parseValue calls) (input.skipValue calls) depth)

def parseBounded : Except (Fault QuarantineReason) Node :=
  if input.limits.maxBytes < input.bytes.length then .error (.error .sizeExceeded)
  else StateT.run' (s := 0) do
    let node ← input.parseValue input.calls 0
    input.skipWs
    let pos ← get
    require (pos = input.bytes.length) .parseError
    return node

/-! ## Tracking -/

variable {input}

/-- The scanner does at its positions what the parser does with the bytes that are left. -/
abbrev Follows {α : Type} (input : Input) (scanner : Scanner α) (parser : Parser α) : Prop :=
  Tracks input.bytes scanner parser

open Lib.Scanner (tracks_pure tracks_fail tracks_require tracks_peek tracks_bump tracks_skipWhile
  tracks_loop Agrees slice_position)

theorem follows_peek : input.Follows input.peek Parser.peek := tracks_peek

theorem follows_bump : input.Follows input.bump Parser.bump := tracks_bump

theorem follows_skipWhile (keep : UInt8 → Bool) :
    input.Follows (skipWhile input.bytes keep input.rounds) (Parser.skipWhile keep) :=
  tracks_skipWhile keep input.bytes_lt

theorem follows_skipWs : input.Follows input.skipWs Fingerprint.skipWs := follows_skipWhile isWs

theorem follows_isNext (char : Char) :
    input.Follows (input.isNext char) (Fingerprint.isNext char) :=
  follows_peek.bind fun _ ↦ tracks_pure _

theorem follows_expect (char : Char) :
    input.Follows (input.expect char) (Fingerprint.expect char) :=
  follows_bump.bind fun _ ↦ tracks_require _ _

theorem follows_readHexDigit : input.Follows input.readHexDigit Fingerprint.readHexDigit := by
  apply follows_bump.bind
  intro next
  cases next with
  | none => exact tracks_fail _
  | some byte =>
      dsimp only [Option.map_some]
      split_ifs
      · exact tracks_pure _
      · exact tracks_pure _
      · exact tracks_pure _
      · exact tracks_fail _

theorem follows_readHex (digits value : ℕ) :
    input.Follows (input.readHex digits value) (Fingerprint.readHex digits value) := by
  induction digits generalizing value with
  | zero => exact tracks_pure _
  | succ digits ih => exact follows_readHexDigit.bind fun _ ↦ ih _

theorem follows_orUtf8Error {α : Type} (value : Option α) :
    input.Follows (orUtf8Error value) (Fingerprint.orUtf8Error value) := by
  cases value with
  | none => exact tracks_fail _
  | some value => exact tracks_pure _

theorem follows_readUnicodeEscape :
    input.Follows input.readUnicodeEscape Fingerprint.readUnicodeEscape := by
  apply (follows_readHex 4 0).bind
  intro hi
  split_ifs
  · exact (follows_expect _).bind fun _ ↦ (follows_expect _).bind fun _ ↦
      (follows_readHex 4 0).bind fun _ ↦ (tracks_require _ _).bind fun _ ↦ follows_orUtf8Error _
  · exact follows_orUtf8Error _

theorem follows_readEscape : input.Follows input.readEscape Fingerprint.readEscape := by
  apply follows_bump.bind
  intro next
  generalize next.map Char.ofUInt8 = char
  split
  case h_9 => exact follows_readUnicodeEscape.bind fun _ ↦ tracks_pure _
  case h_10 =>
    -- the parser's own match on the character has no other case left
    first
      | exact tracks_fail _
      | split <;> first | contradiction | exact tracks_fail _
  all_goals exact tracks_pure _

theorem follows_scanRawByte (buf : List UInt8) :
    input.Follows (input.scanRawByte buf) (Fingerprint.scanRawByte buf) := by
  apply follows_bump.bind
  intro next
  cases next with
  | none => exact tracks_fail _
  | some byte =>
      dsimp only
      split_ifs
      · exact tracks_pure _
      · exact follows_readEscape.bind fun _ ↦ tracks_pure _
      · exact tracks_fail _
      · exact tracks_pure _

theorem follows_scanRawString :
    input.Follows input.scanRawString Fingerprint.scanRawString :=
  follows_bump.bind fun _ ↦ (tracks_loop consumes_scanRawByte follows_scanRawByte input.bytes_lt
    []).bind fun _ ↦ follows_orUtf8Error _

theorem follows_parseKey : input.Follows input.parseKey (Fingerprint.parseKey input.limits) :=
  follows_scanRawString.bind fun _ ↦ (tracks_require _ _).bind fun _ ↦ tracks_pure _

theorem follows_parseString :
    input.Follows input.parseString (Fingerprint.parseString input.limits) :=
  follows_scanRawString.bind fun _ ↦ (tracks_require _ _).bind fun _ ↦ tracks_pure _

theorem follows_skipOptional (chars : List Char) :
    input.Follows (input.skipOptional chars) (Fingerprint.skipOptional chars) := by
  apply follows_peek.bind
  intro next
  cases next with
  | none => exact tracks_pure _
  | some byte =>
      dsimp only
      split_ifs
      · exact follows_bump.bind fun _ ↦ tracks_pure _
      · exact tracks_pure _

theorem follows_skipDigits : input.Follows input.skipDigits Fingerprint.skipDigits :=
  follows_peek.bind fun _ ↦ (tracks_require _ _).bind fun _ ↦ follows_skipWhile _

theorem follows_skipInteger : input.Follows input.skipInteger Fingerprint.skipInteger := by
  apply (follows_skipOptional _).bind
  intro _
  apply follows_bump.bind
  intro next
  cases next with
  | none => exact tracks_fail _
  | some byte =>
      dsimp only
      split_ifs
      · exact tracks_pure _
      · exact follows_skipWhile _
      · exact tracks_fail _

theorem follows_skipFraction : input.Follows input.skipFraction Fingerprint.skipFraction := by
  apply (follows_isNext _).bind
  intro next
  split_ifs
  · exact follows_bump.bind fun _ ↦ follows_skipDigits
  · exact tracks_pure _

theorem follows_skipExponent : input.Follows input.skipExponent Fingerprint.skipExponent := by
  have hexponent : input.Follows
      (input.bump >>= fun _ ↦ input.skipOptional ['+', '-'] >>= fun _ ↦ input.skipDigits)
      (Parser.bump >>= fun _ ↦ Fingerprint.skipOptional ['+', '-'] >>= fun _ ↦
        Fingerprint.skipDigits) :=
    follows_bump.bind fun _ ↦ (follows_skipOptional _).bind fun _ ↦ follows_skipDigits
  apply follows_peek.bind
  intro next
  generalize next.map Char.ofUInt8 = char
  split
  · exact hexponent
  · exact hexponent
  · first
      | exact tracks_pure _
      | split <;> first | contradiction | exact tracks_pure _

/-- The slice of a number lies between its first position and the one behind it. -/
theorem follows_parseNumber : input.Follows input.parseNumber Fingerprint.parseNumber := by
  have hskip : input.Follows
      (do input.skipInteger; input.skipFraction; input.skipExponent)
      (do Fingerprint.skipInteger; Fingerprint.skipFraction; Fingerprint.skipExponent) :=
    follows_skipInteger.bind fun _ ↦ follows_skipFraction.bind fun _ ↦ follows_skipExponent
  have hshrinks : Parser.Shrinks
      (do Fingerprint.skipInteger; Fingerprint.skipFraction; Fingerprint.skipExponent : Parser Unit) :=
    consumes_skipInteger.shrinks.bind fun _ ↦ shrinks_skipFraction.bind fun _ ↦
      shrinks_skipExponent
  have hslice := (hskip.slice hshrinks).bind fun text ↦
    @follows_orUtf8Error input _ (String.fromUTF8? text.toByteArray)
  simp only [bind_assoc, pure_bind] at hslice
  exact hslice

theorem follows_skipLiteral (keyword : String) :
    input.Follows (input.skipLiteral keyword) (Fingerprint.skipLiteral keyword) := by
  intro rest hrest
  have hscan : input.skipLiteral keyword (position input.bytes rest) =
      (slice input.bytes (position input.bytes rest) input.bytes.length >>= fun rest' ↦
        if (ascii keyword).isPrefixOf rest' then
          set (position input.bytes rest + (ascii keyword).length)
        else fail .parseError : Scanner Unit) (position input.bytes rest) := rfl
  rw [hscan]
  change Agrees input.bytes ((slice _ _ _ : Scanner _) _ >>= _) _
  rw [Lib.Scanner.slice_rest hrest]
  change Agrees input.bytes ((ite _ _ _ : Scanner Unit) _) _
  unfold Fingerprint.skipLiteral
  split_ifs with hstart
  · obtain ⟨tail, rfl⟩ := List.isPrefixOf_iff_prefix.mp hstart
    rw [List.drop_left]
    have htail := (List.suffix_append (ascii keyword) tail).trans hrest
    refine ⟨htail, ?_⟩
    have hlength := hrest.length_le
    rw [List.length_append] at hlength
    have hpos : position input.bytes (ascii keyword ++ tail) + (ascii keyword).length =
        position input.bytes tail := by
      rw [position, position, List.length_append]
      omega
    rw [← hpos]
    rfl
  · rfl

theorem follows_parseLiteral {α : Type} (keyword : String) (node : α) :
    input.Follows (input.parseLiteral keyword node) (Fingerprint.parseLiteral keyword node) :=
  (follows_skipLiteral keyword).bind fun _ ↦ tracks_pure _

theorem follows_dispatch {α : Type} (leaf : Node → α) {object array : Scanner α}
    {parseObject parseArray : Parser α} (hobject : input.Follows object parseObject)
    (harray : input.Follows array parseArray) :
    input.Follows (input.dispatch leaf object array)
      (Fingerprint.dispatch input.limits leaf parseObject parseArray) := by
  apply follows_skipWs.bind
  intro _
  apply follows_peek.bind
  intro next
  generalize next.map Char.ofUInt8 = char
  split
  · exact hobject
  · exact harray
  · exact follows_parseString.bind fun _ ↦ tracks_pure _
  · exact follows_parseLiteral _ _
  · exact follows_parseLiteral _ _
  · exact follows_parseLiteral _ _
  · split_ifs with hnumber
    · have hparse : input.Follows (do return leaf (.number (← input.parseNumber)))
          (do return leaf (.number (← Fingerprint.parseNumber))) :=
        follows_parseNumber.bind fun _ ↦ tracks_pure _
      first
        | exact hparse
        | split
          case h_7 hsame =>
            cases hsame
            rw [if_pos hnumber]
            exact hparse
          all_goals
            next hsame => cases hsame <;> contradiction
    · first
        | exact tracks_fail _
        | split
          case h_7 hsame =>
            cases hsame
            rw [if_neg hnumber]
            exact tracks_fail _
          all_goals
            next hsame => cases hsame <;> contradiction
  · exact tracks_fail _

section Container

variable {σ α : Type} {close : Char} {finish : σ → α}

theorem follows_separator (state : σ) :
    input.Follows (input.separator close finish state) (Fingerprint.separator close finish state) := by
  apply follows_bump.bind
  intro next
  split_ifs
  · exact tracks_pure _
  · exact tracks_pure _
  · exact tracks_fail _

theorem follows_containerRound {element : σ → Scanner σ} {parseElement : σ → Parser σ}
    (helement : ∀ state, input.Follows (element state) (parseElement state)) (state : σ) :
    input.Follows (input.containerRound close element finish state)
      (Fingerprint.containerRound close parseElement finish state) :=
  (helement state).bind fun next ↦ follows_skipWs.bind fun _ ↦ follows_separator next

theorem follows_container {element : ℕ → σ → Scanner σ} {parseElement : σ → Parser σ} {depth : ℕ}
    (hdepth : depth < input.limits.maxDepth) (hconsumes : ∀ state, Parser.Consumes (parseElement state))
    (helement : ∀ state, input.Follows (element (depth + 1) state) (parseElement state)) (init : σ) :
    input.Follows (input.container close element finish init depth)
      (Fingerprint.container close parseElement finish init) := by
  unfold container
  rw [if_neg (Nat.not_lt.mpr hdepth)]
  apply follows_bump.bind
  intro _
  apply follows_skipWs.bind
  intro _
  apply (follows_isNext _).bind
  intro closed
  split_ifs
  · exact follows_bump.bind fun _ ↦ tracks_pure _
  · exact tracks_loop (consumes_containerRound hconsumes) (follows_containerRound helement)
      input.bytes_lt init

/-- At the last level a container is refused before its first byte is read. -/
theorem container_eq_fail {element : ℕ → σ → Scanner σ} {depth : ℕ}
    (hdepth : input.limits.maxDepth ≤ depth) (init : σ) :
    input.container close element finish init depth = fail .depthExceeded := by
  unfold container
  rw [if_pos (Nat.lt_succ_of_le hdepth)]

end Container

theorem follows_memberKey : input.Follows input.memberKey (Fingerprint.memberKey input.limits) :=
  follows_skipWs.bind fun _ ↦ (follows_isNext _).bind fun _ ↦ (tracks_require _ _).bind fun _ ↦
    follows_parseKey

theorem follows_colon : input.Follows input.colon Fingerprint.colon :=
  follows_skipWs.bind fun _ ↦ follows_expect _

theorem follows_parseMember {scanner : Scanner Node} {parser : Parser Node}
    (hvalue : input.Follows scanner parser) (state : List (String × Node) × List String) :
    input.Follows (input.parseMember scanner state)
      (Fingerprint.parseMember input.limits parser state) :=
  follows_memberKey.bind fun _ ↦ (tracks_require _ _).bind fun _ ↦ follows_colon.bind fun _ ↦
    hvalue.bind fun _ ↦ (tracks_require _ _).bind fun _ ↦ tracks_pure _

theorem follows_skipMember {scanner : Scanner Unit} {parser : Parser Unit}
    (hvalue : input.Follows scanner parser) (state : Unit) :
    input.Follows (input.skipMember scanner state)
      (Fingerprint.skipMember input.limits parser state) :=
  follows_memberKey.bind fun _ ↦ follows_colon.bind fun _ ↦ hvalue

theorem follows_parseElement {scanner : Scanner Node} {parser : Parser Node} {skip : Scanner Unit}
    {skipParser : Parser Unit} (hvalue : input.Follows scanner parser)
    (hskip : input.Follows skip skipParser) (state : ArrayState) :
    input.Follows (input.parseElement scanner skip state)
      (Fingerprint.parseElement input.limits parser skipParser state) := by
  apply follows_skipWs.bind
  intro _
  split_ifs
  · exact hvalue.bind fun _ ↦ tracks_pure _
  · exact hskip.bind fun _ ↦ tracks_pure _

theorem follows_skipValue {calls depth : ℕ} (hdepth : depth ≤ input.limits.maxDepth)
    (hcalls : input.limits.maxDepth - depth < calls) :
    input.Follows (input.skipValue calls depth)
      (Fingerprint.skipValue input.limits (input.limits.maxDepth - depth)) := by
  induction calls generalizing depth with
  | zero => exact absurd hcalls (Nat.not_lt_zero _)
  | succ calls ih =>
      unfold skipValue
      rcases hdepth.eq_or_lt with hlast | hless
      · rw [Nat.sub_eq_zero_of_le hlast.ge]
        apply follows_dispatch
        · unfold skipObject
          rw [container_eq_fail hlast.ge]
          exact tracks_fail _
        · unfold skipArray
          rw [container_eq_fail hlast.ge]
          exact tracks_fail _
      · obtain ⟨levels, hlevels⟩ := Nat.exists_eq_add_of_lt hless
        rw [show input.limits.maxDepth - depth = levels + 1 by omega]
        have hinner := @ih (depth + 1) (by omega) (by omega)
        rw [show input.limits.maxDepth - (depth + 1) = levels by omega] at hinner
        have hconsumes := consumes_skipValue input.limits levels
        apply follows_dispatch
        · exact follows_container hless (consumes_skipMember input.limits hconsumes)
            (follows_skipMember hinner) ()
        · exact follows_container hless (fun _ ↦ hconsumes) (fun _ ↦ hinner) ()

theorem follows_parseValue {calls depth : ℕ} (hdepth : depth ≤ input.limits.maxDepth)
    (hcalls : input.limits.maxDepth - depth < calls) :
    input.Follows (input.parseValue calls depth)
      (Fingerprint.parseValue input.limits (input.limits.maxDepth - depth)) := by
  induction calls generalizing depth with
  | zero => exact absurd hcalls (Nat.not_lt_zero _)
  | succ calls ih =>
      unfold parseValue
      rcases hdepth.eq_or_lt with hlast | hless
      · rw [Nat.sub_eq_zero_of_le hlast.ge]
        apply follows_dispatch
        · unfold parseObject
          rw [container_eq_fail hlast.ge]
          exact tracks_fail _
        · unfold parseArray
          rw [container_eq_fail hlast.ge]
          exact tracks_fail _
      · obtain ⟨levels, hlevels⟩ := Nat.exists_eq_add_of_lt hless
        rw [show input.limits.maxDepth - depth = levels + 1 by omega]
        have hinner := @ih (depth + 1) (by omega) (by omega)
        have hskip := @follows_skipValue input calls (depth + 1) (by omega) (by omega)
        rw [show input.limits.maxDepth - (depth + 1) = levels by omega] at hinner hskip
        have hconsumes := consumes_parseValue input.limits levels
        apply follows_dispatch
        · exact follows_container hless (consumes_parseMember input.limits hconsumes)
            (follows_parseMember hinner) _
        · exact follows_container hless
            (consumes_parseElement input.limits hconsumes (consumes_skipValue input.limits levels))
            (follows_parseElement hinner hskip) _

/-- The whole input is read exactly if no bytes are left. -/
theorem follows_end :
    input.Follows (do let pos ← get; require (pos = input.bytes.length) .parseError)
      (do let rest ← get; Parser.require (rest = []) .parseError) := by
  intro rest hrest
  have hiff : position input.bytes rest = input.bytes.length ↔ rest = [] := by
    have hlength := hrest.length_le
    rw [← List.length_eq_zero_iff, position]
    omega
  change Agrees input.bytes
    (require (position input.bytes rest = input.bytes.length) QuarantineReason.parseError _)
    (Parser.require (rest = []) _ _)
  simp only [hiff]
  exact tracks_require _ _ rest hrest

/-- The parser at its positions is the parser over the bytes that are left. -/
theorem parseBounded_eq (input : Input) :
    input.parseBounded =
      (Fingerprint.parseBounded input.bytes input.limits).mapError Fault.error := by
  unfold parseBounded Fingerprint.parseBounded document
  split_ifs
  · rfl
  · apply Tracks.run'
    have hcalls : input.limits.maxDepth - 0 < input.calls := input.depth_lt
    apply (follows_parseValue (Nat.zero_le _) hcalls).bind
    intro node
    apply follows_skipWs.bind
    intro _
    have hend := follows_end.bind fun _ ↦ (tracks_pure node : input.Follows (pure node) _)
    simp only [bind_assoc] at hend
    exact hend

end Input

end Deblob.Fingerprint
