import Deblob.Umbrella.Contribution
import Deblob.Umbrella.Typing

/-!
# Soundness of static verification

A bundle without issues passed necessary checks only: elements of arrays, defaults, the values under
a synthetic default, array operators and conversions in scalar chains, and the range of floats are
left to the replay of sample events, and so are gold paths above each other. With these checks made
as well, every conforming event gives a valid gold event or lacks a source that must not be missing.
-/

namespace Deblob.Umbrella

/-! ## Conforming events and acceptable outcomes -/

def ChildField.fieldType (child : ChildField) : FieldType :=
  if child.isArray then .array (.scalar child.ty) else .scalar child.ty

/-- Every child field that is present has its declared type. -/
def conforms (childFields : List ChildField) (event : Value) : Bool :=
  childFields.all fun child ↦ (event.get child.path).all (valueMatches child.fieldType)

/-- The gold event is valid, or the event lacks a source that must not be missing. -/
def acceptable (transform : ChildTransform) (umbrella : UmbrellaSchema) (event : Value) :
    Except ExecError Value → Bool
  | .ok gold => validateGold umbrella gold = []
  | .error error => transform.bindings.any fun binding ↦
      binding.onMissing = .reject && (event.get binding.source).isNone &&
        error = .missingSource binding.source.toString

/-! ## What static verification leaves open -/

/-- A scalar chain is typed by static verification except for these operators. -/
def Op.runsOn (ty : ScalarType) : Op → Bool
  | .unitConvert _ _ ruleId => ty.isNumeric && hasRule ruleId
  | .arrayMap _ => false
  | _ => true

/-- The open checks of a binding whose source is present. -/
def sourceDeferred (child : ChildField) (field : UmbrellaField) (binding : Binding) : Bool :=
  if isSyntheticOnly binding || child.isArray then
    (chainType binding.ops child.fieldType).any fun got ↦ got.widensLosslesslyTo field.ty
  else binding.ops.all (Op.runsOn child.ty)

def deferredCheck (child : ChildField) (field : UmbrellaField) (binding : Binding)
    (event : Value) : Bool :=
  match event.get binding.source with
  | some value =>
    sourceDeferred child field binding && inRange binding.source.toString binding.ops value
  | none =>
    binding.onMissing ≠ .useDefault || (defaultValue binding).any (valueMatches field.ty)

/-- The checks that static verification leaves open, for one event. -/
def deferredChecks (transform : ChildTransform) (umbrella : UmbrellaSchema)
    (childFields : List ChildField) (event : Value) : Prop :=
  ∀ binding ∈ transform.bindings,
    ∀ child ∈ childFields.find? fun child ↦ child.path = binding.source,
      ∀ field ∈ umbrella.field binding.target, deferredCheck child field binding event

/-- Only the field that a binding targets has its path at the target or above it. -/
def ownTargets (transform : ChildTransform) (umbrella : UmbrellaSchema) : Prop :=
  ∀ binding ∈ transform.bindings, ∀ field ∈ umbrella.fields,
    field.path.segments <+: binding.target.segments → umbrella.field binding.target = some field

/-! ## What static verification says -/

/-- The facts about a binding behind an empty list of issues. -/
structure CheckedBinding (umbrella : UmbrellaSchema) (childFields : List ChildField)
    (binding : Binding) (child : ChildField) (field : UmbrellaField) : Prop where
  source : childFields.find? (fun child ↦ child.path = binding.source) = some child
  target : umbrella.field binding.target = some field
  omission : ¬ (binding.onMissing = .omitted ∧ field.cardinality = .required)
  chain : checkOpChain child field binding binding.target.toString = []

theorem checkBinding_eq_nil {umbrella : UmbrellaSchema} {childFields : List ChildField}
    {targeted : List JsonPath} {binding : Binding}
    (hnil : checkBinding umbrella childFields targeted binding = []) :
    binding.target ∉ targeted ∧
      ∃ child field, CheckedBinding umbrella childFields binding child field := by
  unfold checkBinding at hnil
  obtain ⟨hsource, hrest⟩ := List.append_eq_nil_iff.mp hnil
  cases hchild : childFields.find? (fun child ↦ child.path = binding.source) with
  | none => simp [hchild] at hsource
  | some child =>
      cases hfield : umbrella.field binding.target with
      | none => simp [hfield] at hrest
      | some field =>
          simp only [hfield, hchild, List.append_eq_nil_iff] at hrest
          obtain ⟨⟨htargeted, homit⟩, hchain⟩ := hrest
          refine ⟨fun hmem ↦ ?_, child, field, hchild, hfield, fun hboth ↦ ?_, hchain⟩
          · simp [hmem] at htargeted
          · simp [hboth] at homit

theorem checkBindings_eq_nil {umbrella : UmbrellaSchema} {childFields : List ChildField}
    {targeted : List JsonPath} {bindings : List Binding}
    (hnil : checkBindings umbrella childFields targeted bindings = []) :
    (∀ binding ∈ bindings, binding.target ∉ targeted ∧
      ∃ child field, CheckedBinding umbrella childFields binding child field) ∧
    bindings.Pairwise fun left right ↦ left.target ≠ right.target := by
  induction bindings generalizing targeted with
  | nil => exact ⟨by simp, List.Pairwise.nil⟩
  | cons binding bindings ih =>
      rw [checkBindings, List.append_eq_nil_iff] at hnil
      obtain ⟨hfresh, child, field, hchecked⟩ := checkBinding_eq_nil hnil.1
      rw [if_pos (by rw [hchecked.target]; rfl)] at hnil
      obtain ⟨hrest, hpairwise⟩ := ih hnil.2
      constructor
      · refine List.forall_mem_cons.mpr ⟨⟨hfresh, child, field, hchecked⟩, fun other hother ↦ ?_⟩
        obtain ⟨htargeted, hother⟩ := hrest other hother
        exact ⟨fun hmem ↦ htargeted (List.mem_cons_of_mem _ hmem), hother⟩
      · refine List.pairwise_cons.mpr ⟨fun other hother heq ↦ ?_, hpairwise⟩
        exact (hrest other hother).1 (heq ▸ List.mem_cons_self)

theorem checkBinding_of_checked {umbrella : UmbrellaSchema} {childFields : List ChildField}
    {targeted : List JsonPath} {binding : Binding} {child : ChildField} {field : UmbrellaField}
    (hfresh : binding.target ∉ targeted)
    (hchecked : CheckedBinding umbrella childFields binding child field) :
    checkBinding umbrella childFields targeted binding = [] := by
  unfold checkBinding
  simp [hchecked.source, hchecked.target, hfresh, hchecked.omission, hchecked.chain]

/-- Bindings that pass their checks and have targets of their own have no issues. -/
theorem checkBindings_of_checked {umbrella : UmbrellaSchema} {childFields : List ChildField}
    {targeted : List JsonPath} {bindings : List Binding}
    (hchecked : ∀ binding ∈ bindings, binding.target ∉ targeted ∧
      ∃ child field, CheckedBinding umbrella childFields binding child field)
    (htargets : bindings.Pairwise fun left right ↦ left.target ≠ right.target) :
    checkBindings umbrella childFields targeted bindings = [] := by
  induction bindings generalizing targeted with
  | nil => rfl
  | cons binding bindings ih =>
      rcases List.forall_mem_cons.mp hchecked with ⟨⟨hfresh, child, field, hbinding⟩, hrest⟩
      rcases List.pairwise_cons.mp htargets with ⟨hapart, htargets⟩
      rw [checkBindings, checkBinding_of_checked hfresh hbinding, List.nil_append]
      apply ih _ htargets
      intro other hother
      refine ⟨?_, (hrest other hother).2⟩
      split_ifs
      · rw [List.mem_cons, not_or]
        exact ⟨(hapart other hother).symm, (hrest other hother).1⟩
      · exact (hrest other hother).1

theorem isTotal_of_verifyStatic {transform : ChildTransform} {umbrella : UmbrellaSchema}
    {childFields : List ChildField} (hnil : verifyStatic transform umbrella childFields = [])
    {field : UmbrellaField} (hfield : field ∈ umbrella.fields)
    (hrequired : field.cardinality = .required) : isTotal transform field := by
  have htotal := List.flatMap_eq_nil_iff.mp (List.append_eq_nil_iff.mp hnil).2 field hfield
  by_contra hnot
  simp [hrequired, hnot] at htotal

/-! ## Checked chains are typed -/

theorem foldOps_cast_eq_nil {target : String} {ty castTo : ScalarType} {unit : Option Unit}
    {ops : List Op} (hissues : (foldOps target ty unit (.cast castTo :: ops)).1 = []) :
    ty.widensLosslesslyTo castTo ∧ (foldOps target castTo unit ops).1 = [] := by
  rw [foldOps, List.append_eq_nil_iff] at hissues
  refine ⟨?_, hissues.2⟩
  by_contra hnot
  simp [hnot] at hissues

/-- A conversion starts from the declared unit and passed its check. -/
theorem foldOps_unitConvert_eq_nil {target : String} {ty : ScalarType} {unit : Option Unit}
    {source converted : Unit} {ruleId : String} {ops : List Op}
    (hissues : (foldOps target ty unit (.unitConvert source converted ruleId :: ops)).1 = []) :
    unit = some source ∧ verifyConversion source converted ruleId = .ok ⟨⟩ ∧
      (foldOps target .decimal (some converted) ops).1 = [] := by
  rw [foldOps, List.append_eq_nil_iff, List.append_eq_nil_iff] at hissues
  rcases hissues with ⟨⟨hunit, hrule⟩, hrest⟩
  refine ⟨?_, ?_, hrest⟩
  · by_contra hnot
    simp [hnot] at hunit
  · cases hverified : verifyConversion source converted ruleId with
    | error error => simp [hverified] at hrule
    | ok checked => rfl

theorem chainType_of_foldOps {target : String} {ty start : ScalarType} {unit : Option Unit}
    {ops : List Op} (hissues : (foldOps target ty unit ops).1 = [])
    (hruns : ops.all (Op.runsOn start)) (hnumeric : ty.isNumeric = start.isNumeric) :
    chainType ops (.scalar ty) = some (.scalar (foldOps target ty unit ops).2.1) := by
  induction ops generalizing ty unit with
  | nil => rfl
  | cons op ops ih =>
      obtain ⟨hop, hrest⟩ := Bool.and_eq_true_iff.mp hruns
      rw [chainType]
      cases op with
      | cast castTo =>
          obtain ⟨hwidens, hissues⟩ := foldOps_cast_eq_nil hissues
          rw [opType, if_pos hwidens, Option.bind_some,
            ih hissues hrest ((ScalarType.isNumeric_eq_of_widens hwidens).symm.trans hnumeric)]
          rfl
      | unitConvert source converted ruleId =>
          obtain ⟨hstart, hrule⟩ := Bool.and_eq_true_iff.mp hop
          obtain ⟨-, -, hissues⟩ := foldOps_unitConvert_eq_nil hissues
          rw [opType, if_pos (by rw [hnumeric, hstart, hrule]; rfl), Option.bind_some,
            ih hissues hrest hstart.symm]
          rfl
      | default value synthetic => exact ih hissues hrest hnumeric
      | arrayMap elementOps => contradiction

theorem umbrellaScalar_eq_some {field : UmbrellaField} {ty : ScalarType}
    (hty : umbrellaScalar field = some ty) : field.ty = .scalar ty := by
  unfold umbrellaScalar at hty
  cases hfield : field.ty with
  | scalar other => simpa [hfield] using hty
  | array element => simp [hfield] at hty

/-- The facts about a scalar chain behind an empty list of issues. -/
theorem checkOpChain_eq_nil {child : ChildField} {field : UmbrellaField} {binding : Binding}
    {target : String} (hchain : checkOpChain child field binding target = [])
    (hsynthetic : isSyntheticOnly binding = false) (harray : child.isArray = false) :
    ∃ want, field.ty = .scalar want ∧
      (foldOps target child.ty child.unit binding.ops).1 = [] ∧
      (foldOps target child.ty child.unit binding.ops).2.1.widensLosslesslyTo want ∧
      (field.unit.isSome → (foldOps target child.ty child.unit binding.ops).2.2 = field.unit) := by
  cases hscalar : umbrellaScalar field with
  | none => simp [checkOpChain, hsynthetic, harray, hscalar] at hchain
  | some want =>
      simp only [checkOpChain, hsynthetic, harray, hscalar, List.append_eq_nil_iff,
        Bool.false_eq_true, if_false, Option.isNone_some, Bool.or_self] at hchain
      rcases hchain with ⟨⟨hissues, hwant⟩, hunit⟩
      refine ⟨want, umbrellaScalar_eq_some hscalar, hissues, ?_, fun hsome ↦ ?_⟩
      · by_contra hnot
        simp [hnot] at hwant
      · by_contra hnot
        simp [hsome, hnot] at hunit

/-- With the open checks, a chain leads from the child's type to the gold type. -/
theorem chainType_of_checkOpChain {child : ChildField} {field : UmbrellaField} {binding : Binding}
    {target : String} (hchain : checkOpChain child field binding target = [])
    (hdeferred : sourceDeferred child field binding) :
    ∃ got, chainType binding.ops child.fieldType = some got ∧
      got.widensLosslesslyTo field.ty := by
  unfold sourceDeferred at hdeferred
  split_ifs at hdeferred with hopen
  · exact Option.any_eq_true _ _ |>.mp hdeferred
  · obtain ⟨hsynthetic, harray⟩ : isSyntheticOnly binding = false ∧ child.isArray = false := by
      simpa using hopen
    have htype : child.fieldType = .scalar child.ty := by simp [ChildField.fieldType, harray]
    obtain ⟨want, hwant, hissues, hwidens, -⟩ := checkOpChain_eq_nil hchain hsynthetic harray
    refine ⟨_, htype ▸ chainType_of_foldOps hissues hdeferred rfl, ?_⟩
    rw [hwant]
    exact hwidens

/-! ## Contributions of checked bindings -/

theorem valueMatches_of_conforms {childFields : List ChildField} {event value : Value}
    (hevent : conforms childFields event) {child : ChildField} (hchild : child ∈ childFields)
    (hget : event.get child.path = some value) : valueMatches child.fieldType value := by
  have hall := List.all_eq_true.mp hevent child hchild
  rwa [hget, Option.all_some] at hall

section Checked

variable {umbrella : UmbrellaSchema} {childFields : List ChildField} {binding : Binding}
  {child : ChildField} {field : UmbrellaField} {event value : Value}

theorem CheckedBinding.child_path
    (hchecked : CheckedBinding umbrella childFields binding child field) :
    child.path = binding.source := by
  simpa using List.find?_some hchecked.source

theorem CheckedBinding.field_path
    (hchecked : CheckedBinding umbrella childFields binding child field) :
    field.path = binding.target := by
  simpa using List.find?_some hchecked.target

/-- A present source is mapped to a value of the gold type. -/
theorem CheckedBinding.contribution_present
    (hchecked : CheckedBinding umbrella childFields binding child field)
    (hevent : conforms childFields event) (hopen : deferredCheck child field binding event)
    (hget : event.get binding.source = some value) :
    ∃ given, contribution event binding = .ok (some given) ∧ valueMatches field.ty given := by
  rw [deferredCheck, hget, Bool.and_eq_true_iff] at hopen
  obtain ⟨got, htype, hwidens⟩ := chainType_of_checkOpChain hchecked.chain hopen.1
  have hvalue : valueMatches child.fieldType value :=
    valueMatches_of_conforms hevent (List.mem_of_find?_eq_some hchecked.source)
      (by rw [hchecked.child_path, hget])
  obtain ⟨given, hgiven, hmatches⟩ :=
    applyOps_typed binding.source.toString binding.ops htype hvalue hopen.2
  refine ⟨given, ?_, valueMatches_of_widens hwidens hmatches⟩
  rw [contribution, hget]
  simp only [hgiven, Except.map]

/-- A missing source rejects, is skipped, or is filled with a default of the gold type. -/
theorem CheckedBinding.contribution_missing (hopen : deferredCheck child field binding event)
    (hget : event.get binding.source = none) :
    (∃ given, contribution event binding = .ok (some given) ∧ valueMatches field.ty given) ∨
      (contribution event binding = .ok none ∧ binding.onMissing = .omitted) ∨
      contribution event binding = .error (.missingSource binding.source.toString) ∧
        binding.onMissing = .reject := by
  rw [deferredCheck, hget] at hopen
  rw [contribution, hget]
  cases hmissing : binding.onMissing with
  | omitted => exact .inr (.inl ⟨rfl, rfl⟩)
  | reject => exact .inr (.inr ⟨rfl, rfl⟩)
  | useDefault =>
      obtain ⟨given, hgiven, hmatches⟩ : ∃ given, defaultValue binding = some given ∧
          valueMatches field.ty given := by
        simpa [hmissing, Option.any_eq_true] using hopen
      exact .inl ⟨given, by simp only [hgiven], hmatches⟩

end Checked

/-! ## Soundness -/

section Verified

variable {transform : ChildTransform} {umbrella : UmbrellaSchema} {childFields : List ChildField}
  {event gold : Value}

theorem exists_checkedBinding (hverified : verifyStatic transform umbrella childFields = [])
    {binding : Binding} (hbinding : binding ∈ transform.bindings) :
    ∃ child field, CheckedBinding umbrella childFields binding child field :=
  ((checkBindings_eq_nil (List.append_eq_nil_iff.mp hverified).1).1 binding hbinding).2

theorem separate_targets (hverified : verifyStatic transform umbrella childFields = [])
    (howned : ownTargets transform umbrella) :
    transform.bindings.Pairwise fun left right ↦ left.target.Separate right.target := by
  have habove {upper lower : Binding} (hupper : upper ∈ transform.bindings)
      (hlower : lower ∈ transform.bindings) (hne : upper.target ≠ lower.target) :
      ¬ upper.target.segments <+: lower.target.segments := fun hbelow ↦ by
    obtain ⟨_, field, hchecked⟩ := exists_checkedBinding hverified hupper
    have hfield := howned lower hlower field (List.mem_of_find?_eq_some hchecked.target)
      (hchecked.field_path ▸ hbelow)
    have hlowerPath : field.path = lower.target := by simpa using List.find?_some hfield
    exact hne (hchecked.field_path.symm.trans hlowerPath)
  exact (checkBindings_eq_nil (List.append_eq_nil_iff.mp hverified).1).2.imp_of_mem
    fun hleft hright hne ↦ ⟨habove hleft hright hne, habove hright hleft hne.symm⟩

/-- In a run without an error, a binding contributes a value of its field's type, or is allowed to
contribute nothing. -/
theorem Written.contribution_cases (hwritten : Written event transform.bindings gold)
    (hverified : verifyStatic transform umbrella childFields = [])
    (hevent : conforms childFields event)
    (hopen : deferredChecks transform umbrella childFields event) {binding : Binding}
    (hbinding : binding ∈ transform.bindings) {field : UmbrellaField}
    (hfield : umbrella.field binding.target = some field) :
    (∃ given, contribution event binding = .ok (some given) ∧ valueMatches field.ty given) ∨
      contribution event binding = .ok none ∧ binding.onMissing = .omitted := by
  obtain ⟨child, found, hchecked⟩ := exists_checkedBinding hverified hbinding
  obtain rfl : found = field := Option.some.inj (hchecked.target.symm.trans hfield)
  have hbindingOpen := hopen binding hbinding child hchecked.source found hchecked.target
  cases hget : event.get binding.source with
  | some value => exact .inl (hchecked.contribution_present hevent hbindingOpen hget)
  | none =>
      obtain hfilled | homitted | ⟨herror, -⟩ :=
        CheckedBinding.contribution_missing hbindingOpen hget
      · exact .inl hfilled
      · exact .inr homitted
      · obtain ⟨given, hran⟩ := hwritten.ran binding hbinding
        simp [hran] at herror

/-- A value found at a gold path is the contribution of the binding that targets the field. -/
theorem Written.valueMatches_of_get (hwritten : Written event transform.bindings gold)
    (hverified : verifyStatic transform umbrella childFields = [])
    (howned : ownTargets transform umbrella) (hevent : conforms childFields event)
    (hopen : deferredChecks transform umbrella childFields event) {field : UmbrellaField}
    (hfield : field ∈ umbrella.fields) {value : Value} (hget : gold.get field.path = some value) :
    valueMatches field.ty value := by
  obtain ⟨binding, hbinding, ⟨given, hgiven⟩, horigin⟩ :=
    hwritten.origin field.path.segments value field.path.nonempty hget
  have hstored := hwritten.stored binding hbinding given hgiven
  have hmatches {found : UmbrellaField} (hfound : umbrella.field binding.target = some found) :
      valueMatches found.ty given := by
    obtain ⟨other, hother, hmatches⟩ | ⟨hnothing, -⟩ :=
      hwritten.contribution_cases hverified hevent hopen hbinding hfound
    · rw [hgiven, Except.ok.injEq, Option.some.injEq] at hother
      exact hother ▸ hmatches
    · simp [hgiven] at hnothing
  -- below the target there is nothing, so the field's path is the target or above it
  have habove : field.path.segments <+: binding.target.segments := by
    obtain ⟨rest, hrest⟩ | ⟨habove, -⟩ := horigin
    · obtain ⟨_, found, hchecked⟩ := exists_checkedBinding hverified hbinding
      rw [Value.get] at hget hstored
      rw [← hrest, Value.getAt_append, hstored, Option.bind_some] at hget
      rw [eq_nil_of_getAt (hmatches hchecked.target) hget, List.append_nil] at hrest
      exact ⟨[], by rw [List.append_nil, hrest]⟩
    · exact habove
  have hown := howned binding hbinding field hfield habove
  have hpath : field.path = binding.target := by simpa using List.find?_some hown
  rw [hpath, hstored, Option.some.injEq] at hget
  exact hget ▸ hmatches hown

/-- The gold event of a run without an error is valid. -/
theorem Written.validateGold_eq_nil (hwritten : Written event transform.bindings gold)
    (hverified : verifyStatic transform umbrella childFields = [])
    (howned : ownTargets transform umbrella) (hevent : conforms childFields event)
    (hopen : deferredChecks transform umbrella childFields event) :
    validateGold umbrella gold = [] := by
  refine List.flatMap_eq_nil_iff.mpr fun field hfield ↦ ?_
  cases hget : gold.get field.path with
  | some value =>
      exact if_pos
        (hwritten.valueMatches_of_get hverified howned hevent hopen hfield hget)
  | none =>
      refine if_neg fun hrequired ↦ ?_
      obtain ⟨binding, hbinding, htotal⟩ :=
        List.any_eq_true.mp (isTotal_of_verifyStatic hverified hfield hrequired)
      obtain ⟨⟨htarget, homitted⟩, -⟩ : (binding.target = field.path ∧
          ¬ binding.onMissing = .omitted) ∧ isSyntheticOnly binding = false := by
        simpa using htotal
      have hown := howned binding hbinding field hfield (htarget ▸ List.prefix_rfl)
      obtain ⟨given, hgiven, -⟩ | ⟨-, hskipped⟩ :=
        hwritten.contribution_cases hverified hevent hopen hbinding hown
      · have hstored := hwritten.stored binding hbinding given hgiven
        rw [htarget, hget] at hstored
        contradiction
      · exact homitted hskipped

/-- Static verification is sound for execution as far as the open checks hold. -/
theorem verify_static_sound (hverified : verifyStatic transform umbrella childFields = [])
    (howned : ownTargets transform umbrella) (hevent : conforms childFields event)
    (hopen : deferredChecks transform umbrella childFields event) :
    acceptable transform umbrella event (apply transform event) := by
  obtain ⟨gold, happly, hwritten⟩ | ⟨error, happly, binding, hbinding, herror⟩ :=
    apply_written event (separate_targets hverified howned)
  · rw [happly, acceptable, decide_eq_true_iff]
    exact hwritten.validateGold_eq_nil hverified howned hevent hopen
  · rw [happly, acceptable, List.any_eq_true]
    refine ⟨binding, hbinding, ?_⟩
    obtain ⟨child, field, hchecked⟩ := exists_checkedBinding hverified hbinding
    have hbindingOpen := hopen binding hbinding child hchecked.source field hchecked.target
    cases hget : event.get binding.source with
    | some value =>
        obtain ⟨given, hgiven, -⟩ := hchecked.contribution_present hevent hbindingOpen hget
        simp [hgiven] at herror
    | none =>
        obtain ⟨given, hgiven, -⟩ | ⟨hnothing, -⟩ | ⟨hmissing, hreject⟩ :=
          CheckedBinding.contribution_missing hbindingOpen hget
        · simp [hgiven] at herror
        · simp [hnothing] at herror
        · rw [hmissing, Except.error.injEq] at herror
          simp [hreject, herror]

end Verified

/-- A bundle and an event to run it on. -/
structure Sample where
  childFields : List ChildField
  umbrella : UmbrellaSchema
  transform : ChildTransform
  event : Value

def celsius : Unit := ⟨.ucum, "Cel"⟩

def kelvin : Unit := ⟨.ucum, "K"⟩

/-- A scalar chain, an array and a default. -/
def weather : Sample where
  childFields :=
    [⟨⟨["main", "temp"], List.cons_ne_nil _ _⟩, .decimal, some celsius, false⟩,
      ⟨key "tags", .string, none, true⟩, ⟨key "station", .string, none, false⟩]
  umbrella.fields :=
    [⟨key "air_temperature", .scalar .decimal, some kelvin, .required⟩,
      ⟨key "tags", .array (.scalar .string), none, .optional⟩,
      ⟨key "station", .scalar .string, none, .optional⟩]
  transform.bindings :=
    [⟨⟨["main", "temp"], List.cons_ne_nil _ _⟩, key "air_temperature",
        [.cast .decimal, .unitConvert celsius kelvin "ucum:Cel->K"], .reject⟩,
      ⟨key "tags", key "tags", [.arrayMap [.cast .string]], .omitted⟩,
      ⟨key "station", key "station", [.default (.string "none") true], .useDefault⟩]
  event :=
    .object [("main", .object [("temp", .number (.literal "25.0"))]),
      ("tags", .array [.string "a", .string "b"])]

theorem verify_static_sound_weather :
    acceptable weather.transform weather.umbrella weather.event
      (apply weather.transform weather.event) := by
  refine @verify_static_sound weather.transform weather.umbrella weather.childFields weather.event
    ?_ ?_ ?_ ?_
  · decide +kernel
  · unfold ownTargets
    decide +kernel
  · decide +kernel
  · unfold deferredChecks
    decide +kernel

/-- The bundle has no issues and the event conforms, but the outcome is not acceptable. -/
def Sample.unsound (sample : Sample) : Bool :=
  verifyStatic sample.transform sample.umbrella sample.childFields = [] &&
    conforms sample.childFields sample.event &&
    !acceptable sample.transform sample.umbrella sample.event
      (apply sample.transform sample.event)

/-- One optional gold field bound to one child field. -/
def bindOne (ty : ScalarType) (isArray : Bool) (goldTy : FieldType)
    (units : Option Unit × Option Unit) (ops : List Op) (onMissing : OnMissing)
    (value : Option Value) : Sample where
  childFields := [⟨key "in", ty, units.1, isArray⟩]
  umbrella.fields := [⟨key "out", goldTy, units.2, .optional⟩]
  transform.bindings := [⟨key "in", key "out", ops, onMissing⟩]
  event := .object (value.toList.map fun value ↦ ("in", value))

/-- A gold path below another one, then the open checks of a single binding. -/
def unsoundSamples : List Sample :=
  [{ childFields := [⟨key "in", .string, none, false⟩]
     umbrella.fields :=
      [⟨key "out", .scalar .string, none, .optional⟩,
        ⟨⟨["out", "deep"], List.cons_ne_nil _ _⟩, .scalar .string, none, .optional⟩]
     transform.bindings :=
      [⟨key "in", key "out", [], .reject⟩,
        ⟨key "in", ⟨["out", "deep"], List.cons_ne_nil _ _⟩, [], .reject⟩]
     event := .object [("in", .string "a")] },
    -- elements of another type
    bindOne .string true (.array (.scalar .decimal)) (none, none) [] .reject
      (some (.array [.string "a"])),
    -- an array operator on a scalar
    bindOne .string false (.scalar .string) (none, none) [.arrayMap []] .reject
      (some (.string "a")),
    -- a conversion of a string
    bindOne .string false (.scalar .decimal) (some celsius, some kelvin)
      [.unitConvert celsius kelvin "ucum:Cel->K"] .reject (some (.string "warm")),
    -- a currency converted to itself under an unknown rule
    bindOne .decimal false (.scalar .decimal) (some ⟨.iso4217, "USD"⟩, some ⟨.iso4217, "USD"⟩)
      [.unitConvert ⟨.iso4217, "USD"⟩ ⟨.iso4217, "USD"⟩ "noop"] .reject
      (some (.number (.literal "1.5"))),
    -- a default of another type, and none at all
    bindOne .string false (.scalar .string) (none, none)
      [.default (.number (.literal "0")) false] .useDefault none,
    bindOne .string false (.scalar .string) (none, none) [] .useDefault none,
    -- a value present where only a synthetic default was checked
    bindOne .string false (.scalar .decimal) (none, none)
      [.default (.number (.literal "0")) true] .useDefault (some (.string "a")),
    -- a conversion that leaves the range of floats
    bindOne .decimal false (.scalar .decimal) (some ⟨.ucum, "hPa"⟩, some ⟨.ucum, "Pa"⟩)
      [.unitConvert ⟨.ucum, "hPa"⟩ ⟨.ucum, "Pa"⟩ "ucum:hPa->Pa"] .reject
      (some (.number (.literal "1e308")))]

/-- Each open check is needed. -/
theorem verify_static_unsound : unsoundSamples.all Sample.unsound = true := by
  decide +kernel

end Deblob.Umbrella
