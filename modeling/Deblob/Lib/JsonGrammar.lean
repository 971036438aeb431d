import Mathlib.Algebra.Order.Group.Nat
import Mathlib.Data.List.Basic
import Mathlib.Data.String.Basic

/-!
# The JSON grammar

The grammar of RFC 8259 over the characters of a text. A derivation relates a text to what it
denotes. Numbers denote their own text, and an escaped pair of surrogates denotes one character; a
surrogate alone denotes nothing.
-/

namespace Deblob.Lib.Json

/-- A JSON value. -/
inductive Tree where
  | null
  | bool (value : Bool)
  | number (text : String)
  | string (text : String)
  | array (items : List Tree)
  | object (members : List (String × Tree))

def whitespace : List Char := [' ', '\t', '\n', '\r']

/-- `ws` -/
def Ws (text : List Char) : Prop := ∀ char ∈ text, char ∈ whitespace

/-! ## Numbers -/

/-- `*DIGIT` -/
def Digits (text : List Char) : Prop := ∀ char ∈ text, char.isDigit

/-- `1*DIGIT` -/
def SomeDigits (text : List Char) : Prop := text ≠ [] ∧ Digits text

/-- `int = zero / ( digit1-9 *DIGIT )` -/
inductive Integer : List Char → Prop
  | zero : Integer ['0']
  | nonzero {first : Char} {rest : List Char} (hfirst : first.isDigit) (hnonzero : first ≠ '0')
      (hrest : Digits rest) : Integer (first :: rest)

theorem Integer.eq_cons {text : List Char} (htext : Integer text) :
    ∃ first rest, text = first :: rest ∧ first.isDigit := by
  cases htext with
  | zero => exact ⟨'0', [], rfl, rfl⟩
  | nonzero hfirst _ _ => exact ⟨_, _, rfl, hfirst⟩

/-- `[ frac ]` -/
inductive Fraction : List Char → Prop
  | absent : Fraction []
  | present {digits : List Char} (hdigits : SomeDigits digits) : Fraction ('.' :: digits)

/-- `[ exp ]` -/
inductive Exponent : List Char → Prop
  | absent : Exponent []
  | present {mark : Char} {sign digits : List Char} (hmark : mark ∈ ['e', 'E'])
      (hsign : sign ∈ [[], ['+'], ['-']]) (hdigits : SomeDigits digits) :
      Exponent (mark :: (sign ++ digits))

/-- `number = [ minus ] int [ frac ] [ exp ]` -/
inductive Number : List Char → Prop
  | mk {sign integer fraction exponent : List Char} (hsign : sign ∈ [[], ['-']])
      (hinteger : Integer integer) (hfraction : Fraction fraction)
      (hexponent : Exponent exponent) : Number (sign ++ (integer ++ (fraction ++ exponent)))

theorem Number.eq_cons {text : List Char} (htext : Number text) :
    ∃ first rest, text = first :: rest ∧ (first = '-' ∨ first.isDigit) := by
  cases htext with
  | mk hsign hinteger _ _ =>
      obtain ⟨first, rest, rfl, hfirst⟩ := hinteger.eq_cons
      rcases List.mem_pair.mp hsign with rfl | rfl
      · exact ⟨first, _, rfl, .inr hfirst⟩
      · exact ⟨'-', _, rfl, .inl rfl⟩

/-! ## Strings -/

/-- A hex digit in either case. -/
def HexDigit (char : Char) (value : ℕ) : Prop :=
  value < 16 ∧ (char = Nat.digitChar value ∨ char = (Nat.digitChar value).toUpper)

instance (char : Char) (value : ℕ) : Decidable (HexDigit char value) :=
  inferInstanceAs (Decidable (_ ∧ _))

/-- Hex digits behind a number. -/
inductive Hex : ℕ → ℕ → List Char → ℕ → Prop
  | done {value : ℕ} : Hex 0 value [] value
  | digit {char : Char} {digit count value result : ℕ} {rest : List Char}
      (hdigit : HexDigit char digit) (hrest : Hex count (value * 16 + digit) rest result) :
      Hex (count + 1) value (char :: rest) result

/-- `4HEXDIG` -/
def Hex4 (text : List Char) (value : ℕ) : Prop := Hex 4 0 text value

/-- The escapes of one character. -/
def shortEscapes : List (Char × Char) :=
  [('"', '"'), ('\\', '\\'), ('/', '/'), ('b', '\x08'), ('f', '\x0c'), ('n', '\n'), ('r', '\r'),
    ('t', '\t')]

/-- What may stand behind a backslash. -/
inductive Escape : List Char → Char → Prop
  | short {mark char : Char} (hshort : (mark, char) ∈ shortEscapes) : Escape [mark] char
  | scalar {digits : List Char} {char : Char} (hdigits : Hex4 digits char.toNat) :
      Escape ('u' :: digits) char
  | surrogates {high low : List Char} {hi lo : ℕ} {char : Char} (hhigh : Hex4 high hi)
      (hlow : Hex4 low lo) (hhi : 0xD800 ≤ hi ∧ hi ≤ 0xDBFF) (hlo : 0xDC00 ≤ lo ∧ lo ≤ 0xDFFF)
      (hchar : char.toNat = 0x10000 + (hi - 0xD800) * 0x400 + (lo - 0xDC00)) :
      Escape ('u' :: (high ++ '\\' :: 'u' :: low)) char

/-- `unescaped` -/
def Unescaped (char : Char) : Prop := 0x20 ≤ char.toNat ∧ char ≠ '"' ∧ char ≠ '\\'

/-- `*char`, with the characters it denotes. -/
inductive Chars : List Char → List Char → Prop
  | nil : Chars [] []
  | unescaped {char : Char} {rest chars : List Char} (hchar : Unescaped char)
      (hrest : Chars rest chars) : Chars (char :: rest) (char :: chars)
  | escaped {char : Char} {escape rest chars : List Char} (hescape : Escape escape char)
      (hrest : Chars rest chars) : Chars ('\\' :: (escape ++ rest)) (char :: chars)

/-- `string = quotation-mark *char quotation-mark` -/
inductive StringLiteral : List Char → String → Prop
  | mk {body chars : List Char} (hbody : Chars body chars) :
      StringLiteral ('"' :: (body ++ ['"'])) (String.ofList chars)

/-! ## Values -/

section Combinators

variable {α : Type}

/-- `ws element ws` -/
inductive Padded (Element : List Char → α → Prop) : List Char → α → Prop
  | mk {before text after : List Char} {value : α} (hbefore : Ws before)
      (htext : Element text value) (hafter : Ws after) :
      Padded Element (before ++ (text ++ after)) value

/-- `element *( %x2C element )` -/
inductive Separated (Element : List Char → α → Prop) : List Char → List α → Prop
  | last {text : List Char} {value : α} (htext : Element text value) :
      Separated Element text [value]
  | more {text rest : List Char} {value : α} {values : List α} (htext : Element text value)
      (hrest : Separated Element rest values) :
      Separated Element (text ++ ',' :: rest) (value :: values)

/-- `member = string name-separator value` -/
inductive Member (Value : List Char → α → Prop) : List Char → String × α → Prop
  | mk {key before after text : List Char} {name : String} {value : α}
      (hkey : StringLiteral key name) (hbefore : Ws before) (hafter : Ws after)
      (htext : Value text value) : Member Value (key ++ (before ++ ':' :: (after ++ text))) (name, value)

/-- Elements between brackets. -/
inductive Enclosed (opening closing : Char) (Element : List Char → α → Prop) :
    List Char → List α → Prop
  | empty {gap : List Char} (hgap : Ws gap) :
      Enclosed opening closing Element (opening :: (gap ++ [closing])) []
  | elements {body : List Char} {values : List α}
      (hbody : Separated (Padded Element) body values) :
      Enclosed opening closing Element (opening :: (body ++ [closing])) values

variable {β : Type} {Element : List Char → α → Prop} {Other : List Char → β → Prop}
  {related : α → β → Prop}

/-- White space in front of the first element belongs to it. -/
theorem Separated.prepend {gap body : List Char} {values : List α} (hgap : Ws gap)
    (hbody : Separated (Padded Element) body values) :
    Separated (Padded Element) (gap ++ body) values := by
  have hpadded {text : List Char} {value : α} (htext : Padded Element text value) :
      Padded Element (gap ++ text) value := by
    cases htext with
    | @mk before text after _ hbefore htext hafter =>
        rw [← List.append_assoc]
        exact .mk (List.forall_mem_append.mpr ⟨hgap, hbefore⟩) htext hafter
  cases hbody with
  | last htext => exact .last (hpadded htext)
  | more htext hrest =>
      rw [← List.append_assoc]
      exact .more (hpadded htext) hrest

/-- The first element of a body, behind the white space in front of it. -/
theorem Separated.split {body : List Char} {values : List α}
    (hbody : Separated (Padded Element) body values) :
    ∃ before text value behind, Ws before ∧ Element text value ∧ body = before ++ (text ++ behind) ∧
      Separated (Padded Element) (text ++ behind) values := by
  have hnone : Ws [] := List.forall_mem_nil _
  cases hbody with
  | last htext =>
      cases htext with
      | @mk before text after _ hbefore htext hafter =>
          exact ⟨before, text, _, after, hbefore, htext, rfl, .last (.mk hnone htext hafter)⟩
  | @more _ rest _ _ htext hrest =>
      cases htext with
      | @mk before text after _ hbefore htext hafter =>
          refine ⟨before, text, _, after ++ ',' :: rest, hbefore, htext, by simp, ?_⟩
          rw [← List.append_assoc]
          exact .more (.mk hnone htext hafter) hrest

theorem Enclosed.eq_cons {opening closing : Char} {text : List Char} {values : List α}
    (htext : Enclosed opening closing Element text values) : ∃ rest, text = opening :: rest := by
  cases htext with
  | empty _ => exact ⟨_, rfl⟩
  | elements _ => exact ⟨_, rfl⟩

theorem padded_iff (hiff : ∀ text other, Other text other ↔ ∃ value, Element text value ∧
    related value other) (text : List Char) (other : β) :
    Padded Other text other ↔ ∃ value, Padded Element text value ∧ related value other := by
  constructor
  · rintro @⟨before, text, after, _, hbefore, htext, hafter⟩
    rcases (hiff text other).mp htext with ⟨value, htext, hrelated⟩
    exact ⟨value, .mk hbefore htext hafter, hrelated⟩
  · rintro ⟨value, @⟨before, text, after, _, hbefore, htext, hafter⟩, hrelated⟩
    exact .mk hbefore ((hiff text other).mpr ⟨value, htext, hrelated⟩) hafter

theorem separated_iff (hiff : ∀ text other, Other text other ↔ ∃ value, Element text value ∧
    related value other) (text : List Char) (others : List β) :
    Separated Other text others ↔
      ∃ values, Separated Element text values ∧ List.Forall₂ related values others := by
  constructor
  · intro hothers
    induction hothers with
    | last htext =>
        rcases (hiff _ _).mp htext with ⟨value, htext, hrelated⟩
        exact ⟨[value], .last htext, .cons hrelated .nil⟩
    | more htext _ ih =>
        rcases (hiff _ _).mp htext with ⟨value, htext, hrelated⟩
        rcases ih with ⟨values, hvalues, hall⟩
        exact ⟨value :: values, .more htext hvalues, .cons hrelated hall⟩
  · rintro ⟨values, hvalues, hall⟩
    induction hvalues generalizing others with
    | last htext =>
        cases hall with
        | cons hrelated hnil =>
            cases hnil
            exact .last ((hiff _ _).mpr ⟨_, htext, hrelated⟩)
    | more htext _ ih =>
        cases hall with
        | cons hrelated hall => exact .more ((hiff _ _).mpr ⟨_, htext, hrelated⟩) (ih _ hall)

/-- Elements that stand for others are the others between the same brackets. -/
theorem enclosed_iff {opening closing : Char} (hiff : ∀ text other, Other text other ↔
    ∃ value, Element text value ∧ related value other) (text : List Char) (others : List β) :
    Enclosed opening closing Other text others ↔
      ∃ values, Enclosed opening closing Element text values ∧
        List.Forall₂ related values others := by
  have hbodies := separated_iff (padded_iff hiff)
  constructor
  · intro hothers
    cases hothers with
    | empty hgap => exact ⟨[], .empty hgap, .nil⟩
    | elements hbody =>
        rcases (hbodies _ _).mp hbody with ⟨values, hvalues, hall⟩
        exact ⟨values, .elements hvalues, hall⟩
  · rintro ⟨values, hvalues, hall⟩
    cases hvalues with
    | empty hgap =>
        cases hall
        exact .empty hgap
    | elements hbody => exact .elements ((hbodies _ _).mpr ⟨values, hbody, hall⟩)

end Combinators

/-- `value = false / null / true / object / array / number / string` -/
inductive Value : List Char → Tree → Prop
  | null : Value "null".toList .null
  | bool (value : Bool) : Value (toString value).toList (.bool value)
  | number {text : List Char} (htext : Number text) : Value text (.number (String.ofList text))
  | string {text : List Char} {value : String} (htext : StringLiteral text value) :
      Value text (.string value)
  | array {text : List Char} {items : List Tree} (htext : Enclosed '[' ']' Value text items) :
      Value text (.array items)
  | object {text : List Char} {members : List (String × Tree)}
      (htext : Enclosed '\x7b' '\x7d' (Member Value) text members) : Value text (.object members)

/-- `JSON-text = ws value ws` -/
def Text : List Char → Tree → Prop := Padded Value

end Deblob.Lib.Json
