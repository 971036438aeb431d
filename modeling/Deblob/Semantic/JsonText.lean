import Deblob.Fingerprint.KeyString
import Deblob.Lib.SortedMap
import Deblob.Lib.Utf8
import Deblob.Umbrella.Types

/-!
# JSON texts

A compact JSON text without numbers is written from a tree that keeps the order of its members. What
is read from it is a JSON value, whose objects are sorted maps. The JSON library is a parameter; it
reads a text back up to a nesting and refuses what is nested deeper.
-/

namespace Deblob.Semantic

open Core Lib Fingerprint
open Umbrella (Value)

inductive JsonText where
  | null
  | bool (value : Bool)
  | string (text : String)
  | array (items : List JsonText)
  | object (members : List (String × JsonText))

mutual

def JsonText.write : JsonText → List UInt8
  | .null => ascii "null"
  | .bool value => ascii (if value then "true" else "false")
  | .string text => writeJsonString text
  | .array items => ascii "[" ++ (writeItems true items ++ ascii "]")
  | .object members => ascii "\x7b" ++ (writeMembers true members ++ ascii "\x7d")

def writeItems (isFirst : Bool) : List JsonText → List UInt8
  | [] => []
  | item :: items => (if isFirst then [] else ascii ",") ++ (item.write ++ writeItems false items)

def writeMembers (isFirst : Bool) : List (String × JsonText) → List UInt8
  | [] => []
  | (key, value) :: members =>
    (if isFirst then [] else ascii ",") ++
      ((writeJsonString key ++ (ascii ":" ++ value.write)) ++ writeMembers false members)

end

mutual

/-- The value that is read: of two members with one key the later one stays. -/
def JsonText.value : JsonText → Value
  | .null => .null
  | .bool value => .bool value
  | .string text => .string text
  | .array items => .array (itemValues items)
  | .object members => .object (collectMap (memberValues members))

def itemValues : List JsonText → List Value
  | [] => []
  | item :: items => item.value :: itemValues items

def memberValues : List (String × JsonText) → List (String × Value)
  | [] => []
  | (key, value) :: members => (key, value.value) :: memberValues members

end

mutual

/-- How many arrays and objects are inside each other. -/
def JsonText.nesting : JsonText → ℕ
  | .array items => itemNesting items + 1
  | .object members => memberNesting members + 1
  | _ => 0

def itemNesting : List JsonText → ℕ
  | [] => 0
  | item :: items => max item.nesting (itemNesting items)

def memberNesting : List (String × JsonText) → ℕ
  | [] => 0
  | (_, value) :: members => max value.nesting (memberNesting members)

end

theorem itemValues_eq (items : List JsonText) : itemValues items = items.map JsonText.value := by
  induction items with
  | nil => rfl
  | cons item items ih => rw [itemValues, ih, List.map_cons]

theorem memberValues_eq (members : List (String × JsonText)) :
    memberValues members = members.map fun member ↦ (member.1, member.2.value) := by
  induction members with
  | nil => rfl
  | cons member members ih => rw [memberValues, ih, List.map_cons]

/-! ## The bytes are a text -/

theorem isText_ascii {text : String}
    (hascii : (ascii text).all fun byte ↦ byte.toNat < 128) : IsText (ascii text) :=
  isText_of_ascii (by simpa using hascii)

theorem isText_hex4 (value : ℕ) : IsText (hex4 value) := by
  have hdigit (digit : ℕ) (hlt : digit < 16) : (hexDigit digit).toNat < 128 := by
    interval_cases digit <;> decide
  apply isText_of_ascii
  simp only [hex4, List.forall_mem_cons]
  exact ⟨hdigit _ (Nat.mod_lt _ (by decide)), hdigit _ (Nat.mod_lt _ (by decide)),
    hdigit _ (Nat.mod_lt _ (by decide)), hdigit _ (Nat.mod_lt _ (by decide)), by simp⟩

theorem isText_escapeChar (char : Char) : IsText (escapeChar char) := by
  unfold escapeChar
  split_ifs
  · exact isText_ascii (by decide)
  · exact isText_ascii (by decide)
  · exact (isText_ascii (by decide)).append (isText_hex4 _)
  · exact ⟨[char], (List.append_nil _).symm⟩

theorem isText_writeJsonString (text : String) : IsText (writeJsonString text) := by
  have hquote : IsText [0x22] := isText_of_ascii (by simp)
  exact hquote.append ((IsText.flatMap fun char _ ↦ isText_escapeChar char).append hquote)

mutual

theorem JsonText.isText_write : (text : JsonText) → IsText text.write
  | .null => isText_ascii (by decide)
  | .bool true => isText_ascii (by decide)
  | .bool false => isText_ascii (by decide)
  | .string text => isText_writeJsonString text
  | .array items =>
    (isText_ascii (by decide)).append ((isText_writeItems true items).append
      (isText_ascii (by decide)))
  | .object members =>
    (isText_ascii (by decide)).append ((isText_writeMembers true members).append
      (isText_ascii (by decide)))

theorem isText_writeItems (isFirst : Bool) : (items : List JsonText) →
    IsText (writeItems isFirst items)
  | [] => isText_nil
  | item :: items => by
    rw [writeItems]
    refine IsText.append ?_ ((JsonText.isText_write item).append (isText_writeItems false items))
    cases isFirst
    · exact isText_ascii (by decide)
    · exact isText_nil

theorem isText_writeMembers (isFirst : Bool) : (members : List (String × JsonText)) →
    IsText (writeMembers isFirst members)
  | [] => isText_nil
  | (key, value) :: members => by
    rw [writeMembers]
    refine IsText.append ?_ (((isText_writeJsonString key).append
      ((isText_ascii (by decide)).append (JsonText.isText_write value))).append
        (isText_writeMembers false members))
    cases isFirst
    · exact isText_ascii (by decide)
    · exact isText_nil

end

/-! ## Reading -/

/-- `from_str` reads the text back if it is nested less than the limit, and refuses it otherwise. -/
def ReadsText (fromStr : Bytes → Except String Value) (limit : ℕ) (text : JsonText) : Prop :=
  if text.nesting < limit then fromStr text.write = .ok text.value
  else ∃ message, fromStr text.write = .error message

/-- A reader that knows the given texts. -/
def readerOf (texts : List JsonText) (bytes : Bytes) : Except String Value :=
  match texts.find? fun text ↦ text.write = bytes with
  | some text => .ok text.value
  | none => .error "expected value"

/-- A reader that knows texts with different bytes reads each of them. -/
theorem readerOf_readsText {texts : List JsonText} {limit : ℕ}
    (hwrite : texts.Pairwise fun first second ↦ first.write ≠ second.write)
    (hnesting : ∀ text ∈ texts, text.nesting < limit) :
    ∀ text ∈ texts, ReadsText (readerOf texts) limit text := by
  intro text htext
  have hfind : (texts.find? fun other ↦ other.write = text.write) = some text := by
    induction texts with
    | nil => cases htext
    | cons first texts ih =>
        rcases List.pairwise_cons.mp hwrite with ⟨hfirst, htail⟩
        rw [List.forall_mem_cons] at hnesting
        rcases List.mem_cons.mp htext with rfl | hmem
        · simp
        · rw [List.find?_cons_of_neg (by simpa using hfirst text hmem)]
          exact ih htail hnesting.2 hmem
  rw [ReadsText, if_pos (hnesting text htext), readerOf, hfind]

end Deblob.Semantic
