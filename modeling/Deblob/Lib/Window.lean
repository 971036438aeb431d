import Mathlib.Data.List.Induction
import Mathlib.Order.Bounds.Basic
import Mathlib.Order.MinMax

/-!
# Windows

The window of a list of times has the least and the greatest of them. It does not depend on their
order, and it grows with a time that is merged into any window that covers the rest.
-/

namespace Deblob.Lib

variable {T : Type*} [LinearOrder T]

/-- The window has the least and the greatest of the times. -/
def IsWindow (times : List T) (window : T × T) : Prop :=
  IsLeast {time | time ∈ times} window.1 ∧ IsGreatest {time | time ∈ times} window.2

theorem IsWindow.eq_of_perm {left right : List T} {first second : T × T} (hperm : left.Perm right)
    (hfirst : IsWindow left first) (hsecond : IsWindow right second) : first = second := by
  have hset : {time | time ∈ left} = {time | time ∈ right} := Set.ext fun time ↦ hperm.mem_iff
  rw [IsWindow, hset] at hfirst
  exact Prod.ext (hfirst.1.unique hsecond.1) (hfirst.2.unique hsecond.2)

theorem IsWindow.singleton (time : T) : IsWindow [time] (time, time) := by
  constructor <;> simp [IsLeast, IsGreatest, lowerBounds, upperBounds]

/-- A window of some of the times that covers all of them together with a further one. -/
theorem IsWindow.concat {times : List T} {first last time : T} (hfirst : first ∈ times)
    (hlast : last ∈ times) (hlower : ∀ other ∈ times, min first time ≤ other)
    (hupper : ∀ other ∈ times, other ≤ max last time) :
    IsWindow (times ++ [time]) (min first time, max last time) := by
  constructor
  · constructor
    · rcases min_choice first time with heq | heq <;> simp [heq, hfirst]
    · intro other hother
      rcases List.mem_append.mp hother with hmem | hmem
      · exact hlower other hmem
      · exact (min_le_right _ _).trans_eq (List.mem_singleton.mp hmem).symm
  · constructor
    · rcases max_choice last time with heq | heq <;> simp [heq, hlast]
    · intro other hother
      rcases List.mem_append.mp hother with hmem | hmem
      · exact hupper other hmem
      · exact (List.mem_singleton.mp hmem).trans_le (le_max_right _ _)

/-- A single time that covers the rest. -/
theorem IsWindow.concat_self {times : List T} {time : T} (hlower : ∀ other ∈ times, time ≤ other)
    (hupper : ∀ other ∈ times, other ≤ time) : IsWindow (times ++ [time]) (time, time) := by
  constructor
  · constructor
    · simp
    · intro other hother
      rcases List.mem_append.mp hother with hmem | hmem
      · exact hlower other hmem
      · exact (List.mem_singleton.mp hmem).ge
  · constructor
    · simp
    · intro other hother
      rcases List.mem_append.mp hother with hmem | hmem
      · exact hupper other hmem
      · exact (List.mem_singleton.mp hmem).le

end Deblob.Lib
