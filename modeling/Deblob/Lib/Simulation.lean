import Mathlib.Data.List.Forall2

/-!
# Simulation of one component by another

A component answers calls and changes its state. If each step of one is matched by the step of a
reference component, with related answers, then every run is matched by the run of the reference.
What the environment contributes to a call, the order of a listing for instance, is part of it.
-/

namespace Deblob.Lib

variable {State Call Answer : Type*}

/-- Make the calls one after the other and collect the answers. -/
def runCalls (step : State → Call → Option (Answer × State)) (state : State) :
    List Call → Option (List Answer × State)
  | [] => some ([], state)
  | call :: calls => (step state call).bind fun result ↦
      (runCalls step result.2 calls).map fun rest ↦ (result.1 :: rest.1, rest.2)

/-- The same for a component that can always answer. -/
def runAll (step : State → Call → Answer × State) (state : State) :
    List Call → List Answer × State
  | [] => ([], state)
  | call :: calls =>
    let result := step state call
    let rest := runAll step result.2 calls
    (result.1 :: rest.1, rest.2)

variable {RefState RefCall RefAnswer : Type*} {step : State → Call → Option (Answer × State)}
  {refStep : RefState → RefCall → RefAnswer × RefState} {view : Call → RefCall}
  {allowed : Call → Prop} {related : State → RefState → Prop} {same : RefAnswer → Answer → Prop}

/-- The run lemma of a simulation. -/
theorem runCalls_simulated
    (hstep : ∀ state ref call answer next, related state ref → allowed call →
      step state call = some (answer, next) →
        same (refStep ref (view call)).1 answer ∧ related next (refStep ref (view call)).2)
    {state : State} {ref : RefState} (hrelated : related state ref) {calls : List Call}
    (hallowed : ∀ call ∈ calls, allowed call) {answers : List Answer} {last : State}
    (hrun : runCalls step state calls = some (answers, last)) :
    List.Forall₂ same (runAll refStep ref (calls.map view)).1 answers ∧
      related last (runAll refStep ref (calls.map view)).2 := by
  induction calls generalizing state ref answers with
  | nil =>
      cases hrun
      exact ⟨.nil, hrelated⟩
  | cons call calls ih =>
      rcases Option.bind_eq_some_iff.mp hrun with ⟨⟨answer, next⟩, htaken, hrest⟩
      rcases Option.map_eq_some_iff.mp hrest with ⟨⟨others, final⟩, hothers, heq⟩
      cases heq
      rcases List.forall_mem_cons.mp hallowed with ⟨hcall, hcalls⟩
      rcases hstep state ref call answer next hrelated hcall htaken with ⟨hsame, hnext⟩
      rcases ih hnext hcalls hothers with ⟨htail, hlast⟩
      exact ⟨.cons hsame htail, hlast⟩

end Deblob.Lib
