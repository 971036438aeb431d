import Mathlib.Data.List.Infix
import Mathlib.Data.String.Basic

/-!
# Field names in prompts

The names of fields reach the model, as JSON string literals of their first characters. Names that
read like instructions are flagged and still rendered. The lower case of the whole of Unicode is a
parameter.
-/

namespace Deblob.Slm

def maxNameLen : ℕ := 64

/-- A name as a string literal, whether it was cut, and whether it looked like an instruction. -/
structure RedactedName where
  escaped : String
  truncated : Bool
  injectionFlagged : Bool
deriving DecidableEq

def instructionPhrases : List String :=
  ["ignore previous", "ignore all previous", "ignore the above", "ignore above",
    "disregard previous", "disregard all previous", "disregard the above", "new instructions",
    "system prompt", "you are now", "act as", "pretend you are", "override your instructions",
    "output match_schema", "system:", "assistant:", "developer:", "###"]

def controlTokens : List String :=
  ["<|im_start|>", "<|im_end|>", "<|endoftext|>", "<|system|>", "<|user|>", "<|assistant|>",
    "[inst]", "[/inst]", "<<sys>>", "<</sys>>"]

/-- `phrase` is a part of `text`. -/
def contains (text phrase : String) : Bool := phrase.toList <:+: text.toList

def isBidiOrZeroWidthControl (char : Char) : Bool :=
  let code := char.toNat
  (0x200B ≤ code && code ≤ 0x200F) || (0x202A ≤ code && code ≤ 0x202E) ||
    (0x2066 ≤ code && code ≤ 0x2069)

def isControlChar (char : Char) : Bool :=
  char.toNat < 0x20 || (0x7F ≤ char.toNat && char.toNat ≤ 0x9F)

/-- The backtick and the braces. -/
def promptDelimiters : List Char := [Char.ofNat 0x60, Char.ofNat 0x7B, Char.ofNat 0x7D]

def isAsciiAlphabetic (char : Char) : Bool := char.toNat < 0x80 && char.isAlpha

def isCyrillic (char : Char) : Bool := 0x0400 ≤ char.toNat && char.toNat ≤ 0x04FF

def isGreek (char : Char) : Bool :=
  0x0370 ≤ char.toNat && char.toNat ≤ 0x03FF && char ≠ Char.ofNat 0x00B7

section

variable (lowercase : String → String)

def detectInjection (name : String) : Bool :=
  let chars := name.toList
  instructionPhrases.any (contains (lowercase name)) ||
    controlTokens.any (contains (lowercase name)) ||
    chars.any (· ∈ promptDelimiters) ||
    chars.any isControlChar ||
    chars.any isBidiOrZeroWidthControl ||
    (chars.any isAsciiAlphabetic && (chars.any isCyrillic || chars.any isGreek))

/-- A lowercase hex digit. -/
def hexDigitChar (digit : ℕ) : Char := Nat.digitChar digit

/-- The escapes of the JSON library. -/
def escapeJsonChar (char : Char) : List Char :=
  if char = '"' then ['\\', '"']
  else if char = '\\' then ['\\', '\\']
  else if char = Char.ofNat 0x08 then ['\\', 'b']
  else if char = Char.ofNat 0x0C then ['\\', 'f']
  else if char = '\n' then ['\\', 'n']
  else if char = '\r' then ['\\', 'r']
  else if char = '\t' then ['\\', 't']
  else if char.toNat < 0x20 then
    ['\\', 'u', '0', '0', hexDigitChar (char.toNat / 16), hexDigitChar (char.toNat % 16)]
  else [char]

def jsonStringLiteral (text : String) : String :=
  String.ofList ('"' :: (text.toList.flatMap escapeJsonChar ++ ['"']))

def redactFieldName (name : String) : RedactedName where
  escaped := jsonStringLiteral (String.ofList (name.toList.take maxNameLen))
  truncated := maxNameLen < name.toList.length
  injectionFlagged := detectInjection lowercase name

end

/-! ## Escaped names stay inside their literal -/

/-- What a literal may have between its quotes: no control characters, and no quote or backslash
that is not part of an escape. -/
inductive Inert : List Char → Prop
  | nil : Inert []
  | plain {char : Char} {rest : List Char} (printable : 0x20 ≤ char.toNat) (quote : char ≠ '"')
      (backslash : char ≠ '\\') (inert : Inert rest) : Inert (char :: rest)
  | escape {char : Char} {rest : List Char} (printable : 0x20 ≤ char.toNat) (inert : Inert rest) :
      Inert ('\\' :: char :: rest)

theorem hexDigitChar_inert {digit : ℕ} (hdigit : digit < 16) :
    0x20 ≤ (hexDigitChar digit).toNat ∧ hexDigitChar digit ≠ '"' ∧ hexDigitChar digit ≠ '\\' := by
  unfold hexDigitChar
  revert digit
  decide

theorem inert_escapeJsonChar (char : Char) {rest : List Char} (hrest : Inert rest) :
    Inert (escapeJsonChar char ++ rest) := by
  unfold escapeJsonChar
  split_ifs with hquote hbackslash hb hf hn hr ht hcontrol
  · exact .escape (by decide) hrest
  · exact .escape (by decide) hrest
  · exact .escape (by decide) hrest
  · exact .escape (by decide) hrest
  · exact .escape (by decide) hrest
  · exact .escape (by decide) hrest
  · exact .escape (by decide) hrest
  · have hhigh := @hexDigitChar_inert (char.toNat / 16) (by omega)
    have hlow := @hexDigitChar_inert (char.toNat % 16) (by omega)
    exact .escape (by decide) (.plain (by decide) (by decide) (by decide)
      (.plain (by decide) (by decide) (by decide) (.plain hhigh.1 hhigh.2.1 hhigh.2.2
        (.plain hlow.1 hlow.2.1 hlow.2.2 hrest))))
  · exact .plain (not_lt.mp hcontrol) hquote hbackslash hrest

/-- A redacted name is one string literal, whatever the name is. -/
theorem redactFieldName_escaped (lowercase : String → String) (name : String) :
    ∃ body, (redactFieldName lowercase name).escaped.toList = '"' :: (body ++ ['"']) ∧ Inert body := by
  have hinert (chars : List Char) : Inert (chars.flatMap escapeJsonChar) := by
    induction chars with
    | nil => exact .nil
    | cons char chars ih => exact inert_escapeJsonChar char ih
  refine ⟨(name.toList.take maxNameLen).flatMap escapeJsonChar, ?_, hinert _⟩
  simp [redactFieldName, jsonStringLiteral]

end Deblob.Slm
