import Mathlib.Data.List.Induction
import Mathlib.Data.List.Infix

/-!
# Scans that keep some of the items

A list is read once with a state. The step refuses an item, and the state stays, or keeps it and
gives the next state. What is kept of a list does not depend on what comes after it.
-/

namespace Deblob.Lib

variable {α σ : Type*} (step : σ → α → Option σ)

/-- The items that the step keeps. -/
def scan (state : σ) : List α → List α
  | [] => []
  | item :: items =>
      match step state item with
      | some next => item :: scan next items
      | none => scan state items

/-- The state after the items. -/
def scanState (state : σ) : List α → σ
  | [] => state
  | item :: items => scanState ((step state item).getD state) items

@[simp]
theorem scan_nil (state : σ) : scan step state [] = [] := rfl

theorem scan_cons (state : σ) (item : α) (items : List α) :
    scan step state (item :: items) =
      (if (step state item).isSome then [item] else []) ++
        scan step ((step state item).getD state) items := by
  rw [scan]
  cases step state item <;> rfl

/-- What comes later has no effect on what is kept before it. -/
theorem scan_append (state : σ) (before after : List α) :
    scan step state (before ++ after) =
      scan step state before ++ scan step (scanState step state before) after := by
  induction before generalizing state with
  | nil => rfl
  | cons item items ih => rw [List.cons_append, scan_cons, scan_cons, ih, scanState,
      List.append_assoc]

theorem scan_isPrefix (state : σ) (before after : List α) :
    scan step state before <+: scan step state (before ++ after) :=
  ⟨_, (scan_append step state before after).symm⟩

/-- One more item is kept at the end or refused. -/
theorem scan_concat (state : σ) (before : List α) (item : α) :
    scan step state (before ++ [item]) =
      scan step state before ++
        if (step (scanState step state before) item).isSome then [item] else [] := by
  rw [scan_append, scan_cons, scan_nil, List.append_nil]

theorem scanState_concat (state : σ) (before : List α) (item : α) :
    scanState step state (before ++ [item]) =
      (step (scanState step state before) item).getD (scanState step state before) := by
  induction before generalizing state with
  | nil => rfl
  | cons first before ih => exact ih _

theorem scan_sublist (state : σ) (items : List α) : (scan step state items).Sublist items := by
  induction items generalizing state with
  | nil => exact List.Sublist.slnil
  | cons item items ih =>
      rw [scan_cons]
      split_ifs
      · exact (ih _).cons_cons item
      · exact (ih _).cons item

variable {step}

/-- What holds of the state and of the items kept so far, if every item kept preserves it. -/
theorem scan_invariant {I : σ → List α → Prop} {state : σ} (hinit : I state [])
    (hstep : ∀ before kept item after, I before kept → step before item = some after →
      I after (kept ++ [item])) (items : List α) :
    I (scanState step state items) (scan step state items) := by
  induction items using List.reverseRecOn with
  | nil => exact hinit
  | append_singleton items item ih =>
      rw [scan_concat, scanState_concat]
      cases hkeep : step (scanState step state items) item with
      | none => simpa using ih
      | some next => exact hstep _ _ _ _ ih hkeep

end Deblob.Lib
