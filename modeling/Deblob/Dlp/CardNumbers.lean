import Deblob.Dlp.Detectors
import Mathlib.Algebra.Order.Group.Nat
import Mathlib.Data.List.Induction

/-!
# Card numbers in a text

The scanner reads the digits of a text in maximal runs, joined by single spaces and dashes, and
never looks inside a run again. So it finds exactly the card numbers that are whole runs: a number
that is joined to another digit on either side is read together with it.
-/

namespace Deblob.Dlp

/-! ## Numbers -/

/-- What a digit adds at a place, counted from the end. -/
def luhnTerm (digit place : ℕ) : ℕ :=
  if place % 2 = 1 then (if 9 < digit * 2 then digit * 2 - 9 else digit * 2) else digit

def luhnSum (digits : List ℕ) : ℕ :=
  (digits.reverse.zipIdx.map fun (digit, place) ↦ luhnTerm digit place).sum

/-- The fold of `luhn_ok` sums the terms of all places. -/
theorem luhnOk_iff (digits : List ℕ) : luhnOk digits = true ↔ luhnSum digits % 10 = 0 := by
  have hfold (reversed : List ℕ) (place sum : ℕ) :
      (reversed.foldl (fun state digit ↦
        (state.1 + if state.2 then (if 9 < digit * 2 then digit * 2 - 9 else digit * 2) else digit,
          !state.2)) (sum, decide (place % 2 = 1))).1 =
      sum + ((reversed.zipIdx place).map fun entry ↦ luhnTerm entry.1 entry.2).sum := by
    induction reversed generalizing place sum with
    | nil => rfl
    | cons digit reversed ih =>
        have hparity : (!decide (place % 2 = 1)) = decide ((place + 1) % 2 = 1) := by
          rcases Nat.mod_two_eq_zero_or_one place with heven | hodd
          · simp [heven, Nat.add_mod]
          · simp [hodd, Nat.add_mod]
        rw [List.foldl_cons, List.zipIdx_cons, List.map_cons, List.sum_cons, ← add_assoc]
        dsimp only
        rw [hparity, ih]
        simp [luhnTerm]
  have hstart := hfold digits.reverse 0 0
  rw [Nat.zero_add] at hstart
  rw [luhnOk, decide_eq_true_eq, luhnSum, ← hstart]
  rfl

def digitValue (char : Char) : ℕ := char.toNat - '0'.toNat

def isSeparator (char : Char) : Bool := char = ' ' || char = '-'

/-- What follows the first digit of a number: digits with at most one separator before each. -/
inductive CardTail : List Char → List ℕ → Prop
  | nil : CardTail [] []
  | digit {char : Char} {tail : List Char} {digits : List ℕ} (hdigit : char.isDigit)
      (htail : CardTail tail digits) : CardTail (char :: tail) (digitValue char :: digits)
  | separated {separator char : Char} {tail : List Char} {digits : List ℕ}
      (hseparator : isSeparator separator) (hdigit : char.isDigit) (htail : CardTail tail digits) :
      CardTail (separator :: char :: tail) (digitValue char :: digits)

/-- A number with its digits. -/
inductive CardText : List Char → List ℕ → Prop
  | intro {char : Char} {tail : List Char} {digits : List ℕ} (hdigit : char.isDigit)
      (htail : CardTail tail digits) : CardText (char :: tail) (digitValue char :: digits)

/-- Thirteen to nineteen digits with a valid checksum. -/
def IsCardNumber (digits : List ℕ) : Prop :=
  13 ≤ digits.length ∧ digits.length ≤ 19 ∧ luhnSum digits % 10 = 0

/-- The text starts with a digit, or with a separator and a digit. -/
def joins : List Char → Bool
  | [] => false
  | char :: chars => char.isDigit || (isSeparator char && chars.head?.any Char.isDigit)

/-- The text has a card number that is not part of a longer row of digits. -/
def ContainsCard (text : String) : Prop :=
  ∃ left body right digits, text.toList = left ++ body ++ right ∧ CardText body digits ∧
    IsCardNumber digits ∧ left.getLast?.any Char.isDigit = false ∧
    right.head?.any Char.isDigit = false

/-- The text has a card number that is not joined to a digit on either side. -/
def ContainsIsolatedCard (text : String) : Prop :=
  ∃ left body right digits, text.toList = left ++ body ++ right ∧ CardText body digits ∧
    IsCardNumber digits ∧ joins left.reverse = false ∧ joins right = false

/-! ## Joining -/

theorem isDigit_separator {char : Char} (hseparator : isSeparator char = true) :
    char.isDigit = false := by
  rw [isSeparator, Bool.or_eq_true, decide_eq_true_eq, decide_eq_true_eq] at hseparator
  rcases hseparator with rfl | rfl <;> rfl

theorem isDigit_of_joins_eq_false {char : Char} {chars : List Char}
    (hjoins : joins (char :: chars) = false) : char.isDigit = false :=
  (Bool.or_eq_false_iff.mp hjoins).1

theorem head_of_joins_eq_false {chars : List Char} (hjoins : joins chars = false) :
    chars.head?.any Char.isDigit = false := by
  cases chars with
  | nil => rfl
  | cons char chars => exact isDigit_of_joins_eq_false hjoins

/-- What is joined stays joined when more text follows. -/
theorem joins_append {left : List Char} (hjoins : joins left = true) (right : List Char) :
    joins (left ++ right) = true := by
  match left with
  | [] => cases hjoins
  | [char] =>
      have hdigit : char.isDigit = true := by simpa [joins] using hjoins
      simp [joins, hdigit]
  | char :: next :: chars => simpa [joins] using hjoins

/-- A text that is not joined, and does not end with a lone separator before a digit, stays so. -/
theorem joins_append_eq_false {left right : List Char} (hleft : left ≠ [])
    (hjoins : joins left = false)
    (hlone : ∀ separator, left = [separator] → isSeparator separator = true →
      right.head?.any Char.isDigit = false) : joins (left ++ right) = false := by
  match left with
  | [] => exact absurd rfl hleft
  | [char] =>
      have hdigit := isDigit_of_joins_eq_false hjoins
      cases hseparator : isSeparator char with
      | false => simp [joins, hdigit, hseparator]
      | true => simpa [joins, hdigit, hseparator] using hlone char rfl hseparator
  | char :: next :: chars => simpa [joins] using hjoins

/-- A number ends with a digit. -/
theorem CardTail.getLast {tail : List Char} {digits : List ℕ} (htail : CardTail tail digits)
    {char : Char} (hdigit : char.isDigit = true) :
    ∃ init last, char :: tail = init ++ [last] ∧ last.isDigit = true := by
  induction htail generalizing char with
  | nil => exact ⟨[], char, rfl, hdigit⟩
  | digit hnext _ ih =>
      rcases ih hnext with ⟨init, last, heq, hlast⟩
      exact ⟨char :: init, last, by rw [heq, List.cons_append], hlast⟩
  | @separated separator next _ _ _ hnext _ ih =>
      rcases ih hnext with ⟨init, last, heq, hlast⟩
      exact ⟨char :: separator :: init, last, by rw [heq, List.cons_append, List.cons_append], hlast⟩

/-- What follows a digit splits into the rest of its number and a text that is not joined to it. -/
theorem exists_cardTail (chars : List Char) :
    ∃ tail digits right, chars = tail ++ right ∧ CardTail tail digits ∧ joins right = false := by
  match chars with
  | [] => exact ⟨[], [], [], rfl, .nil, rfl⟩
  | char :: chars =>
      cases hdigit : char.isDigit with
      | true =>
          rcases exists_cardTail chars with ⟨tail, digits, right, rfl, htail, hright⟩
          exact ⟨char :: tail, _, right, rfl, .digit hdigit htail, hright⟩
      | false =>
          cases hjoins : joins (char :: chars) with
          | false => exact ⟨[], [], char :: chars, rfl, .nil, hjoins⟩
          | true =>
              rw [joins, hdigit, Bool.false_or, Bool.and_eq_true] at hjoins
              match chars with
              | [] => cases hjoins.2
              | next :: chars =>
                  rcases exists_cardTail chars with ⟨tail, digits, right, rfl, htail, hright⟩
                  exact ⟨char :: next :: tail, _, right, rfl,
                    .separated hjoins.1 hjoins.2 htail, hright⟩

/-! ## Runs -/

/-- The runs behind the character that ends a run. -/
def laterRuns : List Char → List (List ℕ)
  | [] => []
  | _ :: chars => cardRuns [] chars

theorem cardRuns_of_joins_eq_false {run : List ℕ} {chars : List Char}
    (hjoins : joins chars = false) : cardRuns run chars = run :: laterRuns chars := by
  cases chars with
  | nil => rfl
  | cons char chars =>
      have hdigit := isDigit_of_joins_eq_false hjoins
      rw [joins, hdigit, Bool.false_or] at hjoins
      rw [cardRuns, if_neg (by simp [hdigit]), if_neg, laterRuns]
      rintro ⟨-, hseparator, hnext⟩
      have hboth : (isSeparator char && chars.head?.any Char.isDigit) = true := by
        rw [Bool.and_eq_true, isSeparator, Bool.or_eq_true, decide_eq_true_eq, decide_eq_true_eq]
        exact ⟨hseparator, hnext⟩
      rw [hjoins] at hboth
      cases hboth

/-- A run takes the rest of its number, by induction on that rest. -/
theorem cardRuns_append {tail : List Char} {digits : List ℕ} (htail : CardTail tail digits)
    {run : List ℕ} (hrun : run ≠ []) {right : List Char} (hright : joins right = false) :
    cardRuns run (tail ++ right) = (run ++ digits) :: laterRuns right := by
  induction htail generalizing run with
  | nil => rw [List.nil_append, List.append_nil, cardRuns_of_joins_eq_false hright]
  | digit hdigit _ ih =>
      rw [List.cons_append, cardRuns, if_pos hdigit, ← digitValue, ih (by simp), List.append_assoc,
        List.singleton_append]
  | @separated separator char tail digits hseparator hdigit _ ih =>
      have hnot := isDigit_separator hseparator
      have hchar : separator = ' ' ∨ separator = '-' := by
        simpa [isSeparator] using hseparator
      rw [List.cons_append, List.cons_append, cardRuns, if_neg (by simp [hnot]),
        if_pos ⟨hrun, hchar, hdigit⟩, cardRuns, if_pos hdigit, ← digitValue, ih (by simp),
        List.append_assoc, List.singleton_append]

theorem cardRuns_cons_of_not_digit {char : Char} (hdigit : char.isDigit = false)
    (chars : List Char) : cardRuns [] (char :: chars) = [] :: cardRuns [] chars := by
  rw [cardRuns, if_neg (by simp [hdigit]), if_neg (by simp)]

/-- A number at the start of a text, and what is behind it. -/
theorem cardRuns_cardText {body : List Char} {digits : List ℕ} (hbody : CardText body digits)
    {right : List Char} (hright : joins right = false) :
    cardRuns [] (body ++ right) = digits :: laterRuns right := by
  cases hbody with
  | @intro char tail digits hdigit htail =>
      rw [List.cons_append, cardRuns, if_pos hdigit, ← digitValue, List.nil_append,
        cardRuns_append htail (List.cons_ne_nil _ _) hright, List.singleton_append]

/-! ## Whole runs -/

theorem joins_reverse_suffix {init left : List Char}
    (hjoins : joins (init ++ left).reverse = false) : joins left.reverse = false := by
  rw [List.reverse_append] at hjoins
  by_contra hleft
  rw [joins_append (Bool.eq_true_of_not_eq_false hleft)] at hjoins
  cases hjoins

/-- A character that is no digit joins nothing to what is before it. -/
theorem joins_reverse_cons {char : Char} {left : List Char} (hdigit : char.isDigit = false)
    (hjoins : joins left.reverse = false) : joins (char :: left).reverse = false := by
  rw [List.reverse_cons]
  by_cases hleft : left = []
  · subst hleft
    simp [joins, hdigit]
  · refine joins_append_eq_false (by simpa using hleft) hjoins ?_
    intro _ _ _
    simpa using hdigit

/-- A number before a separator is joined to what follows the separator. -/
theorem joins_reverse_number {char : Char} {tail : List Char} {digits : List ℕ}
    (hdigit : char.isDigit = true) (htail : CardTail tail digits) :
    joins (char :: tail).reverse = true ∧ ∀ separator, isSeparator separator = true →
      joins (char :: tail ++ [separator]).reverse = true := by
  rcases htail.getLast hdigit with ⟨init, last, heq, hlast⟩
  rw [heq]
  constructor
  · simp [joins, hlast]
  · intro separator hseparator
    simp [joins, hlast, hseparator]

theorem joins_reverse_cons_tail {char : Char} {left : List Char}
    (hjoins : joins (char :: left).reverse = false) : joins left.reverse = false :=
  @joins_reverse_suffix [char] left hjoins

theorem CardText.head {body : List Char} {digits : List ℕ} (hbody : CardText body digits) :
    ∃ char rest, body = char :: rest ∧ char.isDigit = true := by
  cases hbody with
  | @intro char tail digits hdigit _ => exact ⟨char, tail, rfl, hdigit⟩

/-- Between two numbers there is more than one separator: the text before the second one, which
starts where the first one stopped, joins nothing to it. -/
theorem joins_reverse_between {char stop : Char} {tail left body right : List Char}
    (hstop : joins (stop :: (left ++ body ++ right)) = false)
    (hbody : ∃ first rest, body = first :: rest ∧ first.isDigit = true)
    (hleft : joins left.reverse = false) : joins (char :: tail ++ stop :: left).reverse = false := by
  rw [List.reverse_append]
  refine joins_append_eq_false (by simp)
    (joins_reverse_cons (isDigit_of_joins_eq_false hstop) hleft) ?_
  intro separator hlone hseparator
  have hleftNil : left = [] := by simpa using congrArg List.length hlone
  subst hleftNil
  rcases hbody with ⟨first, rest, rfl, hfirst⟩
  have hstopEq : stop = separator := by simpa using hlone
  simp [joins, hstopEq, hseparator, hfirst] at hstop

/-- Every run is a number that is joined to nothing, by induction on the length of the text. -/
theorem exists_of_mem_cardRuns (chars : List Char) {digits : List ℕ}
    (hdigits : digits ∈ cardRuns [] chars) (hne : digits ≠ []) :
    ∃ left body right, chars = left ++ body ++ right ∧ CardText body digits ∧
      joins left.reverse = false ∧ joins right = false := by
  induction hlength : chars.length using Nat.strong_induction_on generalizing chars with
  | h length ih =>
      subst hlength
      match chars with
      | [] =>
          rw [cardRuns, List.mem_singleton] at hdigits
          exact absurd hdigits hne
      | char :: chars =>
          cases hdigit : char.isDigit with
          | false =>
              rw [cardRuns_cons_of_not_digit hdigit, List.mem_cons] at hdigits
              rcases ih _ (by simp) chars (hdigits.resolve_left hne) rfl with
                ⟨left, body, right, rfl, hbody, hleft, hright⟩
              exact ⟨char :: left, body, right, rfl, hbody, joins_reverse_cons hdigit hleft, hright⟩
          | true =>
              rcases exists_cardTail chars with ⟨tail, rest, right, rfl, htail, hright⟩
              have hrun := cardRuns_cardText (.intro hdigit htail) hright
              rw [List.cons_append] at hrun
              rw [hrun, List.mem_cons] at hdigits
              rcases hdigits with rfl | hlater
              · exact ⟨[], char :: tail, right, rfl, .intro hdigit htail, rfl, hright⟩
              · cases right with
                | nil => cases hlater
                | cons stop later =>
                    rcases ih _ (by simp; omega) later hlater rfl with
                      ⟨left, body, rest, rfl, hbody, hleft, hrest⟩
                    refine ⟨char :: tail ++ stop :: left, body, rest, by simp, hbody, ?_, hrest⟩
                    exact joins_reverse_between hright hbody.head hleft

/-- A number that is joined to nothing is a run, by induction on the length of what is before. -/
theorem mem_cardRuns_of_isolated {left body right : List Char} {digits : List ℕ}
    (hbody : CardText body digits) (hleft : joins left.reverse = false)
    (hright : joins right = false) : digits ∈ cardRuns [] (left ++ body ++ right) := by
  induction hlength : left.length using Nat.strong_induction_on generalizing left with
  | h length ih =>
      subst hlength
      match left with
      | [] =>
          rw [List.nil_append, cardRuns_cardText hbody hright]
          exact List.mem_cons_self
      | char :: left =>
          cases hdigit : char.isDigit with
          | false =>
              rw [List.cons_append, List.cons_append, cardRuns_cons_of_not_digit hdigit]
              exact List.mem_cons_of_mem _ (ih _ (by simp) (joins_reverse_cons_tail hleft) rfl)
          | true =>
              rcases exists_cardTail left with ⟨tail, run, rest, rfl, htail, hrest⟩
              rcases joins_reverse_number hdigit htail with ⟨hend, hlone⟩
              cases rest with
              | nil =>
                  rw [List.append_nil, hend] at hleft
                  cases hleft
              | cons stop later =>
                  have hlater : joins later.reverse = false :=
                    @joins_reverse_suffix (char :: tail ++ [stop]) later (by simpa using hleft)
                  have hwhole : joins (stop :: (later ++ body ++ right)) = false := by
                    rw [List.append_assoc]
                    refine joins_append_eq_false (List.cons_ne_nil _ _) hrest ?_
                    intro separator heq hseparator
                    cases heq
                    have hjoined := hlone stop hseparator
                    rw [List.cons_append, hleft] at hjoined
                    cases hjoined
                  have hrun := cardRuns_cardText (.intro hdigit htail) hwhole
                  have heq : char :: (tail ++ stop :: later) ++ body ++ right =
                      char :: tail ++ stop :: (later ++ body ++ right) := by simp
                  rw [heq, hrun]
                  exact List.mem_cons_of_mem _ (ih _ (by simp; omega) hlater rfl)

/-! ## What is detected -/

theorem isCardNumber_iff (digits : List ℕ) :
    (decide (13 ≤ digits.length) && decide (digits.length ≤ 19) && luhnOk digits) = true ↔
      IsCardNumber digits := by
  rw [Bool.and_eq_true, Bool.and_eq_true, decide_eq_true_eq, decide_eq_true_eq, luhnOk_iff,
    and_assoc, IsCardNumber]

/-- The scanner finds exactly the numbers that are not joined to another digit. -/
theorem hasPaymentCard_iff (text : String) :
    hasPaymentCard text = true ↔ ContainsIsolatedCard text := by
  rw [hasPaymentCard, List.any_eq_true]
  constructor
  · rintro ⟨digits, hdigits, hcard⟩
    rw [isCardNumber_iff] at hcard
    have hne : digits ≠ [] := by
      rintro rfl
      exact absurd hcard.1 (by decide)
    rcases exists_of_mem_cardRuns _ hdigits hne with
      ⟨left, body, right, htext, hbody, hleft, hright⟩
    exact ⟨left, body, right, digits, htext, hbody, hcard, hleft, hright⟩
  · rintro ⟨left, body, right, digits, htext, hbody, hcard, hleft, hright⟩
    refine ⟨digits, ?_, (isCardNumber_iff digits).mpr hcard⟩
    rw [htext]
    exact mem_cardRuns_of_isolated hbody hleft hright

theorem ContainsIsolatedCard.containsCard {text : String} (hcard : ContainsIsolatedCard text) :
    ContainsCard text := by
  rcases hcard with ⟨left, body, right, digits, htext, hbody, hnumber, hleft, hright⟩
  refine ⟨left, body, right, digits, htext, hbody, hnumber, ?_, head_of_joins_eq_false hright⟩
  rw [← List.head?_reverse]
  exact head_of_joins_eq_false hleft

/-- Detection is complete and sound. -/
def DetectsCards (text : String) : Prop :=
  (ContainsCard text → hasPaymentCard text = true) ∧
    (hasPaymentCard text = true → ContainsCard text)

/-- Detection is complete for the texts of which some card number, if there is one, is not joined to
another digit, and for no others. It is always sound. -/
theorem detectsCards_iff (text : String) :
    DetectsCards text ↔ (ContainsCard text → ContainsIsolatedCard text) := by
  rw [DetectsCards, hasPaymentCard_iff]
  exact and_iff_left ContainsIsolatedCard.containsCard

/-- A number is still there behind a text that does not end with a digit. -/
theorem ContainsCard.behind {before text : String} (hcard : ContainsCard text)
    (hbefore : before.toList.getLast?.any Char.isDigit = false) : ContainsCard (before ++ text) := by
  rcases hcard with ⟨left, body, right, digits, htext, hbody, hnumber, hleft, hright⟩
  refine ⟨before.toList ++ left, body, right, digits, ?_, hbody, hnumber, ?_, hright⟩
  · rw [String.toList_append, htext, List.append_assoc, List.append_assoc, List.append_assoc]
  · rw [List.getLast?_append]
    cases hlast : left.getLast? with
    | none => simpa using hbefore
    | some last => simpa [hlast] using hleft

def validCard : String := "4111 1111 1111 1111"

theorem validCard_contained : ContainsCard validCard :=
  ((hasPaymentCard_iff validCard).mp rfl).containsCard

/-- Two digits and a space before a valid number hide it. -/
theorem joinedCard_undetected : ¬ DetectsCards ("12 " ++ validCard) := by
  intro hdetects
  have hfound := hdetects.1 (validCard_contained.behind rfl)
  exact absurd hfound (by decide)

end Deblob.Dlp
