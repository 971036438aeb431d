import Mathlib.Data.Set.Basic

/-!
# Machines, guarded reachability and the invariant rule

A machine is a partial step function on states. All nondeterminism, the scheduler's as well as the
environment's, is part of the label, so a run is a list of labels and a trace can be replayed by
evaluation. `ReachableFrom guard` relates the ends of the runs whose steps all meet `guard`; the
unrestricted runs are the ones under the trivial guard.
-/

namespace Deblob.Lib

/-- A labelled machine whose only nondeterminism is the choice of the label. -/
structure Machine (State Label : Type*) where
  init : State
  step : State → Label → Option State

namespace Machine

variable {State Label : Type*} (machine : Machine State Label)

/-- The states of all runs from `start` whose every step meets `guard` in the state before it. -/
inductive ReachableFrom (guard : State → Label → Prop) (start : State) : State → Prop
  | refl : ReachableFrom guard start start
  | step {state next : State} {label : Label} (reached : ReachableFrom guard start state)
      (allowed : guard state label) (taken : machine.step state label = some next) :
      ReachableFrom guard start next

abbrev Reachable (guard : State → Label → Prop) : State → Prop :=
  machine.ReachableFrom guard machine.init

/-- The guard that allows every step. -/
def always : State → Label → Prop := fun _ _ ↦ True

instance (state : State) (label : Label) : Decidable (always state label) :=
  inferInstanceAs (Decidable True)

/-- Replay a list of labels, failing at the first one that is not allowed or not enabled. -/
def replay (guard : State → Label → Prop) [∀ state label, Decidable (guard state label)]
    (state : State) : List Label → Option State
  | [] => some state
  | label :: labels =>
    if guard state label then (machine.step state label).bind fun next ↦ replay guard next labels
    else none

variable {machine} {guard : State → Label → Prop}

/-- The invariant rule: what holds at the start and is kept by every allowed step holds of every
reached state. -/
theorem ReachableFrom.invariant {inv : State → Prop} {start : State} (hstart : inv start)
    (hstep : ∀ state label next, inv state → guard state label →
      machine.step state label = some next → inv next)
    {state : State} (reached : machine.ReachableFrom guard start state) : inv state := by
  induction reached with
  | refl => exact hstart
  | step _ allowed taken ih => exact hstep _ _ _ ih allowed taken

theorem ReachableFrom.trans {first second third : State}
    (hfirst : machine.ReachableFrom guard first second)
    (hsecond : machine.ReachableFrom guard second third) :
    machine.ReachableFrom guard first third := by
  induction hsecond with
  | refl => exact hfirst
  | step _ allowed taken ih => exact .step ih allowed taken

/-- A run under a guard is one under every weaker guard. -/
theorem ReachableFrom.weaken {weaker : State → Label → Prop}
    (hweaker : ∀ state label, guard state label → weaker state label) {start state : State}
    (reached : machine.ReachableFrom guard start state) :
    machine.ReachableFrom weaker start state := by
  induction reached with
  | refl => exact .refl
  | step _ allowed taken ih => exact ih.step (hweaker _ _ allowed) taken

/-- Without a guard only the steps have to be enabled. -/
theorem replay_always_cons (state : State) (label : Label) (labels : List Label) :
    machine.replay always state (label :: labels) =
      (machine.step state label).bind fun next ↦ machine.replay always next labels :=
  if_pos trivial

/-- Every replayed trace ends in a reached state. -/
theorem reachableFrom_replay [∀ state label, Decidable (guard state label)] {start last : State}
    (labels : List Label) (hreplay : machine.replay guard start labels = some last) :
    machine.ReachableFrom guard start last := by
  induction labels generalizing start with
  | nil =>
      cases hreplay
      exact .refl
  | cons label labels ih =>
      unfold Machine.replay at hreplay
      split at hreplay
      · rename_i hallowed
        obtain ⟨next, hnext, hrest⟩ := Option.bind_eq_some_iff.mp hreplay
        exact (ReachableFrom.refl.step hallowed hnext).trans (ih hrest)
      · cases hreplay

end Machine

end Deblob.Lib
