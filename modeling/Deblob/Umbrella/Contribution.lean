import Deblob.Umbrella.Executor

/-!
# A run as the contributions of its bindings

A binding contributes an error, nothing, or a value, whatever the other bindings do. If the targets
are separate paths, a run fails only with the error of a binding, and otherwise its gold event holds
exactly the contributed values at their targets, in whatever order they were written.
-/

namespace Deblob.Umbrella

open Lib

/-- What a binding makes of an event. -/
def contribution (childEvent : Value) (binding : Binding) : Except ExecError (Option Value) :=
  match childEvent.get binding.source with
  | some value => (applyOps binding.source.toString binding.ops value).map some
  | none =>
    match binding.onMissing with
    | .omitted => .ok none
    | .reject => .error (.missingSource binding.source.toString)
    | .useDefault =>
      match defaultValue binding with
      | none => .error (.noDefault binding.source.toString)
      | some value => .ok (some value)

/-- Write a contribution to the gold event. -/
def writeGiven (out : Value) (target : JsonPath) : Option Value → Except ExecError Value
  | none => .ok out
  | some value => (out.set target value).mapError .set

theorem applyBinding_eq (childEvent out : Value) (binding : Binding) :
    applyBinding childEvent out binding =
      contribution childEvent binding >>= writeGiven out binding.target := by
  unfold applyBinding contribution
  cases childEvent.get binding.source with
  | some value =>
      dsimp only
      cases applyOps binding.source.toString binding.ops value <;> rfl
  | none =>
      cases binding.onMissing with
      | useDefault =>
          dsimp only
          cases defaultValue binding <;> rfl
      | _ => rfl

/-- Neither path is above the other. -/
def JsonPath.Separate (left right : JsonPath) : Prop :=
  ¬ left.segments <+: right.segments ∧ ¬ right.segments <+: left.segments

/-- `out` holds what the bindings `done` contributed, and nothing else. -/
structure Written (childEvent : Value) (done : List Binding) (out : Value) : Prop where
  object : out.isObject
  ran : ∀ binding ∈ done, ∃ given, contribution childEvent binding = .ok given
  stored : ∀ binding ∈ done, ∀ value, contribution childEvent binding = .ok (some value) →
    out.get binding.target = some value
  origin : ∀ path value, path ≠ [] → out.getAt path = some value →
    ∃ binding ∈ done, (∃ given, contribution childEvent binding = .ok (some given)) ∧
      (binding.target.segments <+: path ∨ path <+: binding.target.segments ∧ value.isObject)

namespace Written

variable {childEvent out : Value} {done : List Binding} {binding : Binding}

theorem start (childEvent : Value) : Written childEvent [] (.object []) where
  object := rfl
  ran _ hdone := absurd hdone List.not_mem_nil
  stored _ hdone := absurd hdone List.not_mem_nil
  origin path value hpath hget := by
    obtain ⟨segment, rest, rfl⟩ := List.exists_cons_of_ne_nil hpath
    contradiction

theorem skip (hwritten : Written childEvent done out)
    (hnothing : contribution childEvent binding = .ok none) :
    Written childEvent (done ++ [binding]) out where
  object := hwritten.object
  ran other hother := by
    obtain hother | rfl := List.mem_append.mp hother |>.imp_right List.mem_singleton.mp
    · exact hwritten.ran other hother
    · exact ⟨none, hnothing⟩
  stored other hother value hvalue := by
    obtain hother | rfl := List.mem_append.mp hother |>.imp_right List.mem_singleton.mp
    · exact hwritten.stored other hother value hvalue
    · simp [hnothing] at hvalue
  origin path value hpath hget := by
    obtain ⟨other, hother, horigin⟩ := hwritten.origin path value hpath hget
    exact ⟨other, List.mem_append_left _ hother, horigin⟩

/-- Above a separate target there are only objects, so that it can be written. -/
theorem exists_set (hwritten : Written childEvent done out)
    (hseparate : ∀ other ∈ done, other.target.Separate binding.target) (value : Value) :
    ∃ written, out.setAt binding.target.segments value = .ok written := by
  refine Value.setAt_ok value hwritten.object fun above object habove _ hget ↦ ?_
  by_cases hroot : above = []
  · rw [hroot, Value.getAt_nil, Option.some.injEq] at hget
    exact hget ▸ hwritten.object
  · obtain ⟨other, hother, -, horigin⟩ := hwritten.origin above object hroot hget
    obtain hbelow | ⟨-, hobject⟩ := horigin
    · exact absurd (hbelow.trans habove) (hseparate other hother).1
    · exact hobject

theorem set (hwritten : Written childEvent done out)
    (hseparate : ∀ other ∈ done, other.target.Separate binding.target) {value written : Value}
    (hgiven : contribution childEvent binding = .ok (some value))
    (hset : out.setAt binding.target.segments value = .ok written) :
    Written childEvent (done ++ [binding]) written where
  object := by
    obtain ⟨object, hobject, hisObject⟩ :=
      Value.getAt_setAt_above hset List.nil_prefix binding.target.nonempty.symm
    rw [Value.getAt_nil, Option.some.injEq] at hobject
    exact hobject ▸ hisObject
  ran other hother := by
    obtain hother | rfl := List.mem_append.mp hother |>.imp_right List.mem_singleton.mp
    · exact hwritten.ran other hother
    · exact ⟨_, hgiven⟩
  stored other hother otherValue hother_given := by
    obtain hother | rfl := List.mem_append.mp hother |>.imp_right List.mem_singleton.mp
    · have hbeside := hseparate other hother
      rw [Value.get, Value.getAt_setAt_beside hset hbeside.2 hbeside.1]
      exact hwritten.stored other hother otherValue hother_given
    · rw [hgiven, Except.ok.injEq, Option.some.injEq] at hother_given
      have hbelow := Value.getAt_setAt_below other.target.nonempty hset []
      rwa [List.append_nil, Value.getAt_nil, hother_given] at hbelow
  origin path found hpath hget := by
    by_cases hbelow : binding.target.segments <+: path
    · exact ⟨binding, by simp, ⟨value, hgiven⟩, .inl hbelow⟩
    by_cases habove : path <+: binding.target.segments
    · have hne : path ≠ binding.target.segments := fun heq ↦ hbelow (heq ▸ List.prefix_rfl)
      obtain ⟨object, hobject, hisObject⟩ := Value.getAt_setAt_above hset habove hne
      rw [hobject, Option.some.injEq] at hget
      exact ⟨binding, by simp, ⟨value, hgiven⟩, .inr ⟨habove, hget ▸ hisObject⟩⟩
    · rw [Value.getAt_setAt_beside hset hbelow habove] at hget
      obtain ⟨other, hother, horigin⟩ := hwritten.origin path found hpath hget
      exact ⟨other, List.mem_append_left _ hother, horigin⟩

/-- One binding of a run. -/
theorem step (hwritten : Written childEvent done out)
    (hseparate : ∀ other ∈ done, other.target.Separate binding.target) :
    (∃ written, applyBinding childEvent out binding = .ok written ∧
      Written childEvent (done ++ [binding]) written) ∨
    ∃ error, applyBinding childEvent out binding = .error error ∧
      contribution childEvent binding = .error error := by
  rw [applyBinding_eq]
  cases hgiven : contribution childEvent binding with
  | error error => exact .inr ⟨error, rfl, rfl⟩
  | ok given =>
      refine .inl ?_
      cases given with
      | none => exact ⟨out, rfl, hwritten.skip hgiven⟩
      | some value =>
          obtain ⟨written, hset⟩ := hwritten.exists_set hseparate value
          refine ⟨written, ?_, hwritten.set hseparate hgiven hset⟩
          have hnotNull : out.set binding.target value = .ok written := by
            obtain ⟨entries, rfl⟩ : ∃ entries, out = .object entries := by
              have hobject := hwritten.object
              cases out with
              | object entries => exact ⟨entries, rfl⟩
              | _ => contradiction
            exact hset
          show writeGiven out binding.target (some value) = _
          rw [writeGiven, hnotNull]
          rfl

theorem run {rest : List Binding} (hwritten : Written childEvent done out)
    (hseparate : (done ++ rest).Pairwise fun left right ↦ left.target.Separate right.target) :
    (∃ gold, rest.foldlM (applyBinding childEvent) out = .ok gold ∧
      Written childEvent (done ++ rest) gold) ∨
    ∃ error, rest.foldlM (applyBinding childEvent) out = .error error ∧
      ∃ binding ∈ rest, contribution childEvent binding = .error error := by
  induction rest generalizing done out with
  | nil => exact .inl ⟨out, rfl, by rwa [List.append_nil]⟩
  | cons binding rest ih =>
      have hbinding : ∀ other ∈ done, other.target.Separate binding.target := fun other hother ↦
        (List.pairwise_append.mp hseparate).2.2 other hother binding List.mem_cons_self
      rw [List.foldlM_cons]
      obtain ⟨written, happly, hnext⟩ | ⟨error, happly, hgiven⟩ := hwritten.step hbinding
      · rw [happly]
        rw [List.append_cons] at hseparate ⊢
        obtain hok | ⟨error, herror, other, hother, hgiven⟩ := ih hnext hseparate
        · exact .inl hok
        · exact .inr ⟨error, herror, other, List.mem_cons_of_mem _ hother, hgiven⟩
      · rw [happly]
        exact .inr ⟨error, rfl, binding, List.mem_cons_self, hgiven⟩

end Written

/-- A run with separate targets either holds all contributions or fails with a binding's error. -/
theorem apply_written {transform : ChildTransform} (childEvent : Value)
    (hseparate : transform.bindings.Pairwise fun left right ↦ left.target.Separate right.target) :
    (∃ gold, apply transform childEvent = .ok gold ∧
      Written childEvent transform.bindings gold) ∨
    ∃ error, apply transform childEvent = .error error ∧
      ∃ binding ∈ transform.bindings, contribution childEvent binding = .error error :=
  (Written.start childEvent).run hseparate

end Deblob.Umbrella
