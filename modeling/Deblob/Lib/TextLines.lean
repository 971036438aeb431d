import Mathlib.Data.List.Basic

/-!
# The lines of a text

A line ends with a line feed, and a carriage return before it belongs to the end of the line. What
follows the last line feed is a line if it is not empty. Texts without a line feed, each ended by
one, are the lines of their join. Texts without any control below the space are such texts.
-/

namespace Deblob.Lib

/-- A line without the carriage return at its end. -/
def stripCarriageReturn (line : List Char) : List Char :=
  if line.getLast? = some '\r' then line.dropLast else line

/-- The lines of a text of which the beginning of a line was read. -/
def linesFrom (begun : List Char) : List Char → List (List Char)
  | [] => if begun = [] then [] else [begun]
  | char :: chars =>
    if char = '\n' then stripCarriageReturn begun :: linesFrom [] chars
    else linesFrom (begun ++ [char]) chars

def textLines (text : String) : List String := (linesFrom [] text.toList).map String.ofList

theorem linesFrom_append {line : List Char} (hline : '\n' ∉ line) (begun rest : List Char) :
    linesFrom begun (line ++ '\n' :: rest) =
      stripCarriageReturn (begun ++ line) :: linesFrom [] rest := by
  induction line generalizing begun with
  | nil => rw [List.nil_append, linesFrom, if_pos rfl, List.append_nil]
  | cons char line ih =>
      rw [List.mem_cons, not_or] at hline
      rw [List.cons_append, linesFrom, if_neg (Ne.symm hline.1), ih hline.2, List.append_assoc,
        List.singleton_append]

/-- A line that can be told from its end: no line feed, and no carriage return before it. -/
def IsLine (line : String) : Prop := '\n' ∉ line.toList ∧ line.toList.getLast? ≠ some '\r'

/-- Lines that end with a line feed are the lines of their text. -/
theorem textLines_join {lines : List String} (hlines : ∀ line ∈ lines, IsLine line) :
    textLines (String.join (lines.map (· ++ "\n"))) = lines := by
  induction lines with
  | nil => rfl
  | cons line lines ih =>
      have hline := hlines line List.mem_cons_self
      have hrest := ih fun other hother ↦ hlines other (List.mem_cons_of_mem line hother)
      have htext : (String.join ((line :: lines).map (· ++ "\n"))).toList =
          line.toList ++ '\n' :: (String.join (lines.map (· ++ "\n"))).toList := by
        simp [String.toList_join]
      rw [textLines, htext, linesFrom_append hline.1, List.nil_append, stripCarriageReturn,
        if_neg hline.2, List.map_cons, String.ofList_toList]
      exact congrArg _ hrest

/-! ## Printable texts -/

/-- A text without controls below the space. -/
def Printable (text : String) : Prop := ∀ char ∈ text.toList, 0x20 ≤ char.toNat

instance : DecidablePred Printable := fun text ↦
  decidable_of_iff (text.toList.all fun char ↦ 0x20 ≤ char.toNat) (by simp [Printable])

theorem Printable.isLine {line : String} (hline : Printable line) : IsLine line := by
  refine ⟨fun hmem ↦ absurd (hline _ hmem) (by decide), fun hlast ↦ ?_⟩
  exact absurd (hline _ (List.mem_of_getLast? hlast)) (by decide)

theorem Printable.append {left right : String} (hleft : Printable left)
    (hright : Printable right) : Printable (left ++ right) := by
  unfold Printable
  rw [String.toList_append]
  exact List.forall_mem_append.mpr ⟨hleft, hright⟩

theorem Printable.ite {condition : Prop} [Decidable condition] {left right : String}
    (hleft : Printable left) (hright : Printable right) :
    Printable (if condition then left else right) := by
  split_ifs
  · exact hleft
  · exact hright

theorem Printable.intercalate {sep : String} (hsep : Printable sep) {texts : List String}
    (htexts : ∀ text ∈ texts, Printable text) : Printable (sep.intercalate texts) := by
  unfold Printable
  rw [String.toList_intercalate]
  induction texts with
  | nil => exact List.forall_mem_nil _
  | cons text texts ih =>
      rw [List.forall_mem_cons] at htexts
      cases texts with
      | nil =>
          rw [List.map_singleton, List.intercalate_singleton]
          exact htexts.1
      | cons other texts =>
          rw [List.map_cons, List.map_cons, List.intercalate_cons_cons, List.forall_mem_append,
            List.forall_mem_append]
          exact ⟨⟨htexts.1, hsep⟩, ih htexts.2⟩

theorem printable_of_isDigit {chars : List Char} (hchars : ∀ char ∈ chars, char.isDigit) :
    Printable (String.ofList chars) := by
  intro char hchar
  rw [String.toList_ofList] at hchar
  have hdigit := hchars char hchar
  rw [Char.isDigit, Bool.and_eq_true, decide_eq_true_eq, decide_eq_true_eq] at hdigit
  exact Nat.le_trans (by decide) (UInt32.le_iff_toNat_le.mp hdigit.1)

theorem printable_toString (number : ℕ) : Printable (toString number) := by
  have hdigits : Printable (String.ofList (Nat.toDigits 10 number)) :=
    printable_of_isDigit fun char hchar ↦
      Nat.isDigit_of_mem_toDigits (b := 10) (by decide) (by decide) hchar
  rwa [← Nat.toList_repr, String.ofList_toList, ← Nat.toString_eq_repr] at hdigits

end Deblob.Lib
