import Mathlib.Data.List.Basic

/-!
# Prefix codes

`ReadsBack enc value` says that the code of `value` can be told apart from every other code whatever
follows it. Codes are put together from literals, concatenations and separated lists, and each of
these keeps the property.
-/

namespace Deblob.Lib

variable {α β Symbol : Type*}

/-- A text that begins with the code of `value` begins with no other code. -/
def ReadsBack (enc : α → List Symbol) (value : α) : Prop :=
  ∀ other rest left, enc value ++ rest = enc other ++ left → value = other ∧ rest = left

namespace ReadsBack

variable {enc : α → List Symbol}

theorem injective (henc : ∀ value, ReadsBack enc value) : Function.Injective enc := by
  intro value other heq
  exact (henc value other [] [] (by rw [heq])).1

/-- A function that reads codes back, whatever follows them. -/
theorem of_decoder (decode : List Symbol → Option (α × List Symbol))
    (hdecode : ∀ value rest, decode (enc value ++ rest) = some (value, rest)) (value : α) :
    ReadsBack enc value := by
  intro other rest left heq
  have hboth : some (value, rest) = some (other, left) := by
    rw [← hdecode value rest, heq, hdecode]
  exact Prod.mk.inj (Option.some.inj hboth)

/-- Codes none of which is a prefix of another. -/
theorem of_incomparable (henc : ∀ value other, enc value <+: enc other → value = other)
    (value : α) : ReadsBack enc value := by
  intro other rest left heq
  have hvalue : enc value <+: enc other ++ left := heq ▸ List.prefix_append _ _
  obtain rfl : value = other := by
    obtain hprefix | hprefix :=
      List.prefix_or_prefix_of_prefix hvalue (List.prefix_append _ left)
    · exact henc _ _ hprefix
    · exact (henc _ _ hprefix).symm
  exact ⟨rfl, List.append_cancel_left heq⟩

/-- The code of a pair, with a literal in between. -/
theorem pair {encRight : β → List Symbol} {value : α × β} (literal : List Symbol)
    (hleft : ReadsBack enc value.1) (hright : ReadsBack encRight value.2) :
    ReadsBack (fun pair : α × β ↦ enc pair.1 ++ (literal ++ encRight pair.2)) value := by
  intro other rest left heq
  simp only [List.append_assoc] at heq
  obtain ⟨hfst, htail⟩ := hleft _ _ _ heq
  obtain ⟨hsnd, hrest⟩ := hright _ _ _ (List.append_cancel_left htail)
  exact ⟨Prod.ext hfst hsnd, hrest⟩

end ReadsBack

/-- The codes of a list with `sep` in front of all but the first one. -/
def separated (sep : Symbol) (enc : α → List Symbol) : Bool → List α → List Symbol
  | _, [] => []
  | isFirst, value :: values =>
    (if isFirst then [] else [sep]) ++ (enc value ++ separated sep enc false values)

/-- A separated list is read back up to its closing symbol. -/
theorem separated_readsBack {sep close : Symbol} {enc : α → List Symbol} (hsep : sep ≠ close)
    (hopen : ∀ value rest left, enc value ++ rest ≠ close :: left) {values : List α}
    (hvalues : ∀ value ∈ values, ReadsBack enc value) :
    ∀ {isFirst : Bool} {others : List α} {rest left : List Symbol},
      separated sep enc isFirst values ++ close :: rest =
        separated sep enc isFirst others ++ close :: left → values = others ∧ rest = left := by
  induction values with
  | nil =>
      intro isFirst others rest left heq
      cases others with
      | nil => exact ⟨rfl, (List.cons.inj heq).2⟩
      | cons other others =>
          cases isFirst with
          | true =>
              simp only [separated, if_true, List.nil_append, List.append_assoc] at heq
              exact absurd heq.symm (hopen _ _ _)
          | false => exact absurd (List.cons.inj heq).1.symm hsep
  | cons value values ih =>
      intro isFirst others rest left heq
      cases others with
      | nil =>
          cases isFirst with
          | true =>
              simp only [separated, if_true, List.nil_append, List.append_assoc] at heq
              exact absurd heq (hopen _ _ _)
          | false => exact absurd (List.cons.inj heq).1 hsep
      | cons other others =>
          simp only [separated, List.append_assoc] at heq
          obtain ⟨rfl, htail⟩ :=
            hvalues value List.mem_cons_self _ _ _ (List.append_cancel_left heq)
          obtain ⟨rfl, hrest⟩ := ih (fun value hvalue ↦ hvalues value (.tail _ hvalue)) htail
          exact ⟨rfl, hrest⟩

/-! ## Codes on a domain -/

/-- No code of a value of the domain continues the code of another one. -/
def ReadsBackOn (dom : α → Prop) (enc : α → List Symbol) : Prop :=
  ∀ value other, dom value → dom other → ∀ rest left,
    enc value ++ rest = enc other ++ left → value = other ∧ rest = left

namespace ReadsBackOn

variable {dom : α → Prop} {enc : α → List Symbol} {value other : α}

theorem inj (henc : ReadsBackOn dom enc) (hvalue : dom value) (hother : dom other)
    (heq : enc value = enc other) : value = other :=
  (henc value other hvalue hother [] [] (by rw [heq])).1

/-- Different codes of one length. -/
theorem of_length (hlength : ∀ value other, dom value → dom other →
      (enc value).length = (enc other).length)
    (hinj : ∀ value other, dom value → dom other → enc value = enc other → value = other) :
    ReadsBackOn dom enc := by
  intro value other hvalue hother rest left heq
  rcases List.append_inj heq (hlength value other hvalue hother) with ⟨hcode, hrest⟩
  exact ⟨hinj value other hvalue hother hcode, hrest⟩

/-- The codes of two values one after the other. -/
theorem append {domRight : β → Prop} {encRight : β → List Symbol} (hleft : ReadsBackOn dom enc)
    (hright : ReadsBackOn domRight encRight) :
    ReadsBackOn (fun pair : α × β ↦ dom pair.1 ∧ domRight pair.2)
      (fun pair ↦ enc pair.1 ++ encRight pair.2) := by
  intro value other hvalue hother rest left heq
  rw [List.append_assoc, List.append_assoc] at heq
  rcases hleft _ _ hvalue.1 hother.1 _ _ heq with ⟨hfst, htail⟩
  rcases hright _ _ hvalue.2 hother.2 _ _ htail with ⟨hsnd, hrest⟩
  exact ⟨Prod.ext hfst hsnd, hrest⟩

/-- Values read through a view that tells them apart. -/
theorem comap {domView : β → Prop} {view : β → α} (henc : ReadsBackOn dom enc)
    (hdom : ∀ value, domView value → dom (view value))
    (hinj : ∀ value other, domView value → domView other → view value = view other →
      value = other) :
    ReadsBackOn domView (fun value ↦ enc (view value)) := by
  intro value other hvalue hother rest left heq
  rcases henc _ _ (hdom _ hvalue) (hdom _ hother) _ _ heq with ⟨hview, hrest⟩
  exact ⟨hinj _ _ hvalue hother hview, hrest⟩

/-- The codes themselves. -/
theorem codes (henc : ReadsBackOn dom enc) :
    ReadsBackOn (fun code ↦ ∃ value, dom value ∧ enc value = code) id := by
  rintro _ _ ⟨value, hvalue, rfl⟩ ⟨other, hother, rfl⟩ rest left heq
  rcases henc value other hvalue hother rest left heq with ⟨rfl, hrest⟩
  exact ⟨rfl, hrest⟩

/-- An optional part, when it is known from elsewhere whether it is there. -/
theorem optional (henc : ReadsBackOn dom enc) {value other : Option α}
    (hvalue : ∀ found ∈ value, dom found) (hother : ∀ found ∈ other, dom found)
    (hpresent : value.isSome = other.isSome) {rest left : List Symbol}
    (heq : value.elim [] enc ++ rest = other.elim [] enc ++ left) :
    value = other ∧ rest = left := by
  cases value with
  | none =>
      cases other with
      | none => exact ⟨rfl, heq⟩
      | some found => cases hpresent
  | some value =>
      cases other with
      | none => cases hpresent
      | some other =>
          rcases henc value other (hvalue _ rfl) (hother _ rfl) _ _ heq with ⟨rfl, hrest⟩
          exact ⟨rfl, hrest⟩

/-- The codes of as many values one after the other. -/
theorem flatMap (henc : ReadsBackOn dom enc) {values others : List α}
    (hvalues : ∀ value ∈ values, dom value) (hothers : ∀ other ∈ others, dom other)
    (hlength : values.length = others.length) {rest left : List Symbol}
    (heq : values.flatMap enc ++ rest = others.flatMap enc ++ left) :
    values = others ∧ rest = left := by
  induction values generalizing others with
  | nil =>
      obtain rfl : others = [] := List.length_eq_zero_iff.mp hlength.symm
      exact ⟨rfl, heq⟩
  | cons value values ih =>
      cases others with
      | nil => cases hlength
      | cons other others =>
          rw [List.forall_mem_cons] at hvalues hothers
          simp only [List.flatMap_cons, List.append_assoc] at heq
          rcases henc _ _ hvalues.1 hothers.1 _ _ heq with ⟨rfl, htail⟩
          rcases ih hvalues.2 hothers.2 (Nat.succ.inj hlength) htail with ⟨rfl, hrest⟩
          exact ⟨rfl, hrest⟩

/-- The codes of values up to the end of a text. -/
theorem stream (henc : ReadsBackOn dom enc) (hnonempty : ∀ value, enc value ≠ [])
    {values others : List α} (hvalues : ∀ value ∈ values, dom value)
    (hothers : ∀ other ∈ others, dom other) (heq : values.flatMap enc = others.flatMap enc) :
    values = others := by
  induction values generalizing others with
  | nil =>
      cases others with
      | nil => rfl
      | cons other others => simp [hnonempty other] at heq
  | cons value values ih =>
      cases others with
      | nil => simp [hnonempty value] at heq
      | cons other others =>
          rw [List.forall_mem_cons] at hvalues hothers
          rw [List.flatMap_cons, List.flatMap_cons] at heq
          rcases henc _ _ hvalues.1 hothers.1 _ _ heq with ⟨rfl, htail⟩
          rw [ih hvalues.2 hothers.2 htail]

end ReadsBackOn

end Deblob.Lib
