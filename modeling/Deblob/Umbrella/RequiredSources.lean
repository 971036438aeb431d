import Deblob.Umbrella.Soundness

/-!
# Where required values come from

The value of a gold field is the one written last at its path, above it or below it. Static
verification only refuses a chain of nothing but synthetic defaults for a required field. A default
beside another operator, or one that is not flagged, still fills the field when the source is
missing.
-/

namespace Deblob.Umbrella

open Lib

/-! ## The last write at a path -/

/-- In a run that succeeds, the binding gives a value. -/
def Binding.Writes (childEvent : Value) (binding : Binding) : Prop :=
  (childEvent.get binding.source).isSome ∨ binding.onMissing = .useDefault

instance (childEvent : Value) : DecidablePred (Binding.Writes childEvent) := fun _ ↦
  inferInstanceAs (Decidable (_ ∨ _))

instance (left right : JsonPath) : Decidable (left.Separate right) :=
  inferInstanceAs (Decidable (_ ∧ _))

/-- The binding that writes last at a path, above it or below it. -/
def providedBy (childEvent : Value) (bindings : List Binding) (path : JsonPath) : Option Binding :=
  bindings.reverse.find? fun binding ↦
    binding.Writes childEvent ∧ ¬ binding.target.Separate path

/-- A field has the value of the source of its own binding. -/
def SourceDerived (transform : ChildTransform) (childEvent gold : Value) (field : UmbrellaField) :
    Prop :=
  ∃ binding, providedBy childEvent transform.bindings field.path = some binding ∧
    binding.target = field.path ∧
    ∃ value mapped, childEvent.get binding.source = some value ∧
      applyOps binding.source.toString binding.ops value = .ok mapped ∧
      gold.get field.path = some mapped

/-- The binding has to take a default, because its source is missing. -/
def Binding.StandsIn (childEvent : Value) (binding : Binding) : Prop :=
  binding.onMissing = .useDefault ∧ childEvent.get binding.source = none

/-- No default stands in for the field, and no later binding writes above its path or below it. -/
def KeepsSource (transform : ChildTransform) (childEvent : Value) (field : UmbrellaField) : Prop :=
  ∀ before binding after, transform.bindings = before ++ binding :: after →
    binding.target = field.path →
      ¬ binding.StandsIn childEvent ∧
        ∀ later ∈ after, later.Writes childEvent → later.target.Separate field.path

section

variable {childEvent : Value} {binding : Binding} {path : JsonPath}

theorem JsonPath.Separate.symm {left right : JsonPath} (hseparate : left.Separate right) :
    right.Separate left :=
  And.symm hseparate

theorem JsonPath.not_separate_self (path : JsonPath) : ¬ path.Separate path :=
  fun hseparate ↦ hseparate.1 List.prefix_rfl

/-- The binding that provides a path writes, and none after it writes there. -/
theorem providedBy_eq_some {bindings : List Binding} :
    providedBy childEvent bindings path = some binding ↔
      (binding.Writes childEvent ∧ ¬ binding.target.Separate path) ∧
        ∃ before after, bindings = before ++ binding :: after ∧
          ∀ later ∈ after, later.Writes childEvent → later.target.Separate path := by
  unfold providedBy
  rw [List.find?_eq_some_iff_append]
  simp only [decide_eq_true_eq]
  apply and_congr_right
  intro _
  constructor
  · rintro ⟨after, before, hreverse, hlater⟩
    refine ⟨before.reverse, after.reverse, ?_, fun later hmem hwrites ↦ ?_⟩
    · rw [← List.reverse_reverse bindings, hreverse]
      simp
    · have hnot := hlater later (List.mem_reverse.mp hmem)
      simpa [hwrites] using hnot
  · rintro ⟨before, after, rfl, hlater⟩
    refine ⟨after.reverse, before.reverse, by simp, fun later hmem ↦ ?_⟩
    by_cases hwrites : later.Writes childEvent
    · simp [hwrites, hlater later (List.mem_reverse.mp hmem) hwrites]
    · simp [hwrites]

/-- A binding contributes a value exactly if it writes. -/
theorem writes_of_contribution {given : Option Value}
    (hgiven : contribution childEvent binding = .ok given) :
    binding.Writes childEvent ↔ given.isSome := by
  unfold contribution at hgiven
  unfold Binding.Writes
  cases hget : childEvent.get binding.source with
  | some value =>
      rw [hget] at hgiven
      cases happly : applyOps binding.source.toString binding.ops value with
      | error error => simp [happly, Except.map] at hgiven
      | ok mapped =>
          simp only [happly, Except.map, Except.ok.injEq] at hgiven
          simp [← hgiven]
  | none =>
      rw [hget] at hgiven
      cases hmissing : binding.onMissing with
      | omitted => simp_all
      | reject => simp_all
      | useDefault =>
          cases hdefault : defaultValue binding with
          | none => simp [hmissing, hdefault] at hgiven
          | some value =>
              simp only [hmissing, hdefault, Except.ok.injEq] at hgiven
              simp [← hgiven]

/-! ## A run up to its end -/

theorem Value.get_set {root written value : Value} (hset : root.set path value = .ok written) :
    written.get path = some value := by
  have hbelow (start : Value) (hstart : start.setAt path.segments value = .ok written) :
      written.get path = some value := by
    have hread := Value.getAt_setAt_below path.nonempty hstart []
    rwa [List.append_nil, Value.getAt_nil] at hread
  cases root with
  | null => exact hbelow _ hset
  | _ => exact hbelow _ hset

theorem Value.get_set_separate {root written value : Value} {other : JsonPath}
    (hset : root.set path value = .ok written) (hseparate : path.Separate other) :
    written.get other = root.get other := by
  cases root with
  | null =>
      rw [Value.get, Value.getAt_setAt_beside hset hseparate.1 hseparate.2]
      rcases List.exists_cons_of_ne_nil other.nonempty with ⟨first, rest, hsegments⟩
      rw [Value.get, hsegments]
      rfl
  | _ => exact Value.getAt_setAt_beside hset hseparate.1 hseparate.2

/-- A step that succeeds writes the contribution of the binding. -/
theorem applyBinding_eq_ok {out written : Value}
    (happly : applyBinding childEvent out binding = .ok written) :
    ∃ given, contribution childEvent binding = .ok given ∧
      (given = none ∧ written = out ∨
        ∃ value, given = some value ∧ out.set binding.target value = .ok written) := by
  rw [applyBinding_eq] at happly
  rcases Except.bind_eq_ok.mp happly with ⟨given, hgiven, hwrite⟩
  refine ⟨given, hgiven, ?_⟩
  cases given with
  | none => exact .inl ⟨rfl, (Except.ok.inj hwrite).symm⟩
  | some value =>
      refine .inr ⟨value, rfl, ?_⟩
      cases hset : out.set binding.target value with
      | error error => simp [writeGiven, hset, Except.mapError] at hwrite
      | ok result =>
          simp only [writeGiven, hset, Except.mapError, Except.ok.injEq] at hwrite
          rw [hwrite]

/-- Writes beside a path leave what is read there. -/
theorem get_of_separate_writes {rest : List Binding} {out gold : Value}
    (hrun : rest.foldlM (applyBinding childEvent) out = .ok gold)
    (hseparate : ∀ later ∈ rest, later.Writes childEvent → later.target.Separate path) :
    gold.get path = out.get path := by
  induction rest generalizing out with
  | nil =>
      cases hrun
      rfl
  | cons later rest ih =>
      rw [List.foldlM_cons] at hrun
      rcases Except.bind_eq_ok.mp hrun with ⟨written, happly, hrest⟩
      rcases List.forall_mem_cons.mp hseparate with ⟨hlater, hseparate⟩
      rw [ih hrest hseparate]
      rcases applyBinding_eq_ok happly with ⟨given, hgiven, hcases⟩
      rcases hcases with ⟨-, rfl⟩ | ⟨value, rfl, hset⟩
      · rfl
      · exact Value.get_set_separate hset
          (hlater ((writes_of_contribution hgiven).mpr rfl))

/-- A run writes the contribution of each binding before those after it. -/
theorem apply_split {transform : ChildTransform} {gold : Value} {before after : List Binding}
    (happly : apply transform childEvent = .ok gold)
    (hsplit : transform.bindings = before ++ binding :: after) :
    ∃ given, contribution childEvent binding = .ok given ∧
      ∀ value, given = some value →
        (∀ later ∈ after, later.Writes childEvent → later.target.Separate binding.target) →
          gold.get binding.target = some value := by
  rw [apply, hsplit, List.foldlM_append] at happly
  rcases Except.bind_eq_ok.mp happly with ⟨out, -, hrest⟩
  rw [List.foldlM_cons] at hrest
  rcases Except.bind_eq_ok.mp hrest with ⟨written, hbinding, hafter⟩
  rcases applyBinding_eq_ok hbinding with ⟨given, hgiven, hcases⟩
  refine ⟨given, hgiven, fun value hvalue hseparate ↦ ?_⟩
  rw [get_of_separate_writes hafter hseparate]
  rcases hcases with ⟨rfl, -⟩ | ⟨other, rfl, hset⟩
  · cases hvalue
  · cases hvalue
    exact Value.get_set hset

end

/-! ## Required fields -/

section

variable {transform : ChildTransform} {umbrella : UmbrellaSchema} {childFields : List ChildField}
  {childEvent gold : Value} {field : UmbrellaField}

/-- A required field has a binding that does not skip it. -/
theorem exists_required_binding (hverified : verifyStatic transform umbrella childFields = [])
    (hfield : field ∈ umbrella.fields) (hrequired : field.cardinality = .required) :
    ∃ before binding after, transform.bindings = before ++ binding :: after ∧
      binding.target = field.path ∧ binding.onMissing ≠ .omitted := by
  rcases List.any_eq_true.mp (isTotal_of_verifyStatic hverified hfield hrequired) with
    ⟨binding, hbinding, htotal⟩
  rcases List.append_of_mem hbinding with ⟨before, after, hsplit⟩
  simp only [Bool.and_eq_true, decide_eq_true_eq] at htotal
  exact ⟨before, binding, after, hsplit, htotal.1.1, htotal.1.2⟩

theorem split_unique_of_pairwise {α β : Type*} {name : α → β} {before before' after after' : List α}
    {item item' : α}
    (hdistinct : (before ++ item :: after).Pairwise fun left right ↦ name left ≠ name right)
    (hsplit : before ++ item :: after = before' ++ item' :: after') (hname : name item = name item') :
    before = before' ∧ item = item' ∧ after = after' := by
  induction before generalizing before' with
  | nil =>
      cases before' with
      | nil =>
          rcases List.cons.inj hsplit with ⟨hitem, hafter⟩
          exact ⟨rfl, hitem, hafter⟩
      | cons first before' =>
          rcases List.cons.inj hsplit with ⟨-, rfl⟩
          exact absurd hname ((List.pairwise_cons.mp hdistinct).1 item' (by simp))
  | cons first before ih =>
      rcases List.pairwise_cons.mp hdistinct with ⟨hfirst, hdistinct⟩
      cases before' with
      | nil =>
          rcases List.cons.inj hsplit with ⟨rfl, -⟩
          exact absurd hname.symm (hfirst item (by simp))
      | cons first' before' =>
          rcases List.cons.inj hsplit with ⟨rfl, hrest⟩
          rcases ih hdistinct hrest with ⟨rfl, hitem, hafter⟩
          exact ⟨rfl, hitem, hafter⟩

/-- The binding of a target is the only one. -/
theorem split_unique (hverified : verifyStatic transform umbrella childFields = [])
    {before before' after after' : List Binding} {binding binding' : Binding}
    (hsplit : transform.bindings = before ++ binding :: after)
    (hsplit' : transform.bindings = before' ++ binding' :: after')
    (htarget : binding.target = binding'.target) :
    before = before' ∧ binding = binding' ∧ after = after' := by
  have htargets := (checkBindings_eq_nil (List.append_eq_nil_iff.mp hverified).1).2
  rw [hsplit] at htargets
  exact split_unique_of_pairwise htargets (hsplit ▸ hsplit') htarget

theorem sourceDerived_iff (hverified : verifyStatic transform umbrella childFields = [])
    (happly : apply transform childEvent = .ok gold) (hfield : field ∈ umbrella.fields)
    (hrequired : field.cardinality = .required) :
    SourceDerived transform childEvent gold field ↔ KeepsSource transform childEvent field := by
  constructor
  · rintro ⟨binding, hprovided, htarget, value, mapped, hget, -, -⟩
    rcases providedBy_eq_some.mp hprovided with ⟨-, before, after, hsplit, hlater⟩
    intro before' binding' after' hsplit' htarget'
    rcases split_unique hverified hsplit hsplit' (htarget.trans htarget'.symm) with
      ⟨rfl, rfl, rfl⟩
    refine ⟨fun hstands ↦ ?_, hlater⟩
    rw [hstands.2] at hget
    cases hget
  · intro hkeeps
    rcases exists_required_binding hverified hfield hrequired with
      ⟨before, binding, after, hsplit, htarget, homitted⟩
    rcases hkeeps before binding after hsplit htarget with ⟨hstands, hlater⟩
    rcases apply_split happly hsplit with ⟨given, hgiven, hgold⟩
    cases hget : childEvent.get binding.source with
    | none =>
        unfold contribution at hgiven
        rw [hget] at hgiven
        cases hmissing : binding.onMissing with
        | omitted => exact absurd hmissing homitted
        | reject => simp [hmissing] at hgiven
        | useDefault => exact absurd ⟨hmissing, hget⟩ hstands
    | some value =>
        unfold contribution at hgiven
        rw [hget] at hgiven
        cases hops : applyOps binding.source.toString binding.ops value with
        | error error => simp [hops, Except.map] at hgiven
        | ok mapped =>
            simp only [hops, Except.map, Except.ok.injEq] at hgiven
            refine ⟨binding, providedBy_eq_some.mpr ⟨⟨.inl (by rw [hget]; rfl), ?_⟩,
              before, after, hsplit, hlater⟩, htarget, value, mapped, hget, hops, ?_⟩
            · rw [htarget]
              exact field.path.not_separate_self
            · rw [← htarget]
              exact hgold mapped hgiven.symm fun later hmem hwrites ↦
                htarget ▸ hlater later hmem hwrites

/-- In a successful run of a verified transform, every required field has the value of its source
exactly if no default stands in for one and no later binding writes above or below one. -/
theorem required_sources_iff (hverified : verifyStatic transform umbrella childFields = [])
    (happly : apply transform childEvent = .ok gold) :
    (∀ field ∈ umbrella.fields, field.cardinality = .required →
      SourceDerived transform childEvent gold field) ↔
    ∀ field ∈ umbrella.fields, field.cardinality = .required →
      KeepsSource transform childEvent field :=
  forall₃_congr fun _ hfield hrequired ↦ sourceDerived_iff hverified happly hfield hrequired

/-- Where gold paths are not above each other, only a default can take the place of a source. -/
theorem keepsSource_iff_of_ownTargets (hverified : verifyStatic transform umbrella childFields = [])
    (howned : ownTargets transform umbrella) :
    KeepsSource transform childEvent field ↔
      ∀ binding ∈ transform.bindings, binding.target = field.path →
        ¬ binding.StandsIn childEvent := by
  constructor
  · intro hkeeps binding hbinding htarget
    rcases List.append_of_mem hbinding with ⟨before, after, hsplit⟩
    exact (hkeeps before binding after hsplit htarget).1
  · intro hstands before binding after hsplit htarget
    have hseparate := separate_targets hverified howned
    rw [hsplit, List.pairwise_append, List.pairwise_cons] at hseparate
    refine ⟨hstands binding (hsplit ▸ by simp) htarget, fun later hlater _ ↦ ?_⟩
    rw [← htarget]
    exact (hseparate.2.1.1 later hlater).symm

end

/-! ## A default beside a cast -/

def requiredReading : UmbrellaSchema where
  fields := [⟨key "reading", .scalar .decimal, none, .required⟩]

def optionalReading : List ChildField := [⟨key "value", .decimal, none, false⟩]

/-- The default is flagged, but it is not the only operator. -/
def defaultBesideCast : ChildTransform where
  bindings := [⟨key "value", key "reading",
    [.cast .decimal, .default (.number (.literal "0")) true], .useDefault⟩]

/-- An event without the source is given the default for a required field. -/
theorem required_from_default :
    verifyStatic defaultBesideCast requiredReading optionalReading = [] ∧
      ∃ gold, apply defaultBesideCast (.object []) = .ok gold ∧
        gold.get (key "reading") = some (.number (.literal "0")) ∧
        ∃ field ∈ requiredReading.fields, field.cardinality = .required ∧
          ¬ SourceDerived defaultBesideCast (.object []) gold field := by
  refine ⟨by decide +kernel, _, rfl, rfl, _, List.mem_singleton_self _, rfl, ?_⟩
  rintro ⟨binding, hprovided, -, value, -, hget, -⟩
  cases hprovided
  cases hget

theorem required_sources_iff_default :
    ∃ gold, apply defaultBesideCast (.object []) = .ok gold ∧
      ((∀ field ∈ requiredReading.fields, field.cardinality = .required →
          SourceDerived defaultBesideCast (.object []) gold field) ↔
        ∀ field ∈ requiredReading.fields, field.cardinality = .required →
          KeepsSource defaultBesideCast (.object []) field) :=
  ⟨_, rfl, @required_sources_iff _ _ optionalReading _ _ (by decide +kernel) rfl⟩

end Deblob.Umbrella
