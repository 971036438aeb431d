import Mathlib.Data.Finset.Card

/-!
# Names of things

Things are written down under names that one function gives, and not all of them are. If each thing
has a name of its own among those written down, then all are written and no two alike. A rendering
of lists gives names of their own where each code begins with a mark and has no other.
-/

namespace Deblob.Lib

/-! ## Own names -/

section

variable {α κ : Type*} [DecidableEq κ]

/-- With a name for each thing among the names that are written, every thing is written. -/
theorem eq_of_own_names {things written : Finset α} {name own : α → κ} (hsub : written ⊆ things)
    (hinj : Set.InjOn own things) (hown : ∀ thing ∈ things, own thing ∈ written.image name) :
    written = things ∧ Set.InjOn name things := by
  have himage : things.card ≤ (written.image name).card :=
    Finset.card_le_card_of_injOn own hown hinj
  have hwritten : written = things :=
    Finset.eq_of_subset_of_card_le hsub (himage.trans Finset.card_image_le)
  subst hwritten
  exact ⟨rfl, Finset.card_image_iff.mp (le_antisymm Finset.card_image_le himage)⟩

end

/-! ## Marked codes -/

section

variable {Symbol α : Type*} {mark : Symbol → Prop}

/-- Words without marks end where the marks begin. -/
theorem append_inj_of_marked {left right leftRest rightRest : List Symbol}
    (hleft : ∀ symbol ∈ left, ¬mark symbol) (hright : ∀ symbol ∈ right, ¬mark symbol)
    (hleftRest : ∀ symbol ∈ leftRest.head?, mark symbol)
    (hrightRest : ∀ symbol ∈ rightRest.head?, mark symbol)
    (heq : left ++ leftRest = right ++ rightRest) : left = right ∧ leftRest = rightRest := by
  induction left generalizing right with
  | nil =>
      cases right with
      | nil => exact ⟨rfl, heq⟩
      | cons symbol right =>
        rw [List.nil_append] at heq
        exact absurd (hleftRest symbol (by simp [heq])) (hright symbol List.mem_cons_self)
  | cons symbol left ih =>
      cases right with
      | nil =>
        rw [List.nil_append] at heq
        exact absurd (hrightRest symbol (by simp [← heq])) (hleft symbol List.mem_cons_self)
      | cons other right =>
        obtain ⟨rfl, hrest⟩ := List.cons.inj heq
        obtain ⟨rfl, hrests⟩ := ih (List.forall_mem_cons.mp hleft).2
          (List.forall_mem_cons.mp hright).2 hrest
        exact ⟨rfl, hrests⟩

/-- A code is a mark and then no mark. -/
def Marked (mark : Symbol → Prop) (code : List Symbol) : Prop :=
  ∃ head tail, code = head :: tail ∧ mark head ∧ ∀ symbol ∈ tail, ¬mark symbol

variable {code : α → List Symbol}

theorem mark_head_flatMap {values : List α} (hvalues : ∀ value ∈ values, Marked mark (code value)) :
    ∀ symbol ∈ (values.flatMap code).head?, mark symbol := by
  intro symbol hsymbol
  cases values with
  | nil => cases hsymbol
  | cons value values =>
      obtain ⟨head, tail, hcode, hhead, -⟩ := hvalues value List.mem_cons_self
      rw [List.flatMap_cons, hcode, List.cons_append, List.head?_cons, Option.mem_some_iff]
        at hsymbol
      exact hsymbol ▸ hhead

/-- Lists of marked codes are read back code by code. -/
theorem flatMap_inj_of_marked {left right : List α}
    (hleft : ∀ value ∈ left, Marked mark (code value))
    (hright : ∀ value ∈ right, Marked mark (code value))
    (hinj : ∀ value ∈ left, ∀ other ∈ right, code value = code other → value = other)
    (heq : left.flatMap code = right.flatMap code) : left = right := by
  induction left generalizing right with
  | nil =>
      cases right with
      | nil => rfl
      | cons other right =>
        obtain ⟨head, tail, hcode, -⟩ := hright other List.mem_cons_self
        simp [hcode] at heq
  | cons value left ih =>
      cases right with
      | nil =>
        obtain ⟨head, tail, hcode, -⟩ := hleft value List.mem_cons_self
        simp [hcode] at heq
      | cons other right =>
        obtain ⟨⟨head, tail, hvalue, -, htail⟩, hlefts⟩ := List.forall_mem_cons.mp hleft
        obtain ⟨⟨head', tail', hother, -, htail'⟩, hrights⟩ := List.forall_mem_cons.mp hright
        rw [List.flatMap_cons, List.flatMap_cons, hvalue, hother, List.cons_append,
          List.cons_append] at heq
        obtain ⟨rfl, hrest⟩ := List.cons.inj heq
        obtain ⟨rfl, hrests⟩ := append_inj_of_marked htail htail' (mark_head_flatMap hlefts)
          (mark_head_flatMap hrights) hrest
        obtain rfl : value = other :=
          hinj value List.mem_cons_self other List.mem_cons_self (hvalue.trans hother.symm)
        have hbelow : ∀ one ∈ left, ∀ two ∈ right, code one = code two → one = two :=
          fun one hone two htwo ↦
            hinj one (List.mem_cons_of_mem _ hone) two (List.mem_cons_of_mem _ htwo)
        rw [ih hlefts hrights hbelow hrests]

end

end Deblob.Lib
