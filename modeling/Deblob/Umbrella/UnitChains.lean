import Deblob.Umbrella.ExactExecutor
import Deblob.Umbrella.Soundness

/-!
# Physical meaning of operator chains

A chain that runs on numbers applies the rules it cites, one after the other. Static verification
follows the declared units through a scalar chain, and apart from currencies each conversion it
accepts keeps the quantity. The rules that a currency cites, the chains of arrays and the units
under a synthetic default are not checked.
-/

namespace Deblob.Umbrella

open Lib

/-! ## Numbers and their quantities -/

/-- A JSON number as an exact rational; an integer is written without a fraction and exponent. -/
structure ExactNumber where
  value : ℚ
  integral : Bool
  exact : integral → ∃ whole : ℤ, value = whole

def ExactNumber.ty (number : ExactNumber) : ScalarType :=
  if number.integral then .integer else .decimal

def ExactNumber.measured (number : ExactNumber) : Measured ℚ := .number number.ty number.value

/-- The result is a number that stands in `gold` for what `number` stands for in `unit`. -/
def SameQuantity (unit gold : Unit) (number : ExactNumber) (result : Measured ℚ) : Prop :=
  ∃ ty value, result = .number ty value ∧ gold.denote value = unit.denote number.value

/-- In one unit the same quantity is the same number. -/
theorem SameQuantity.unchanged {unit : Unit} {number : ExactNumber} {result : Measured ℚ}
    (hsame : SameQuantity unit unit number result) : ∃ ty, result = .number ty number.value := by
  rcases hsame with ⟨ty, value, rfl, hvalue⟩
  exact ⟨ty, by rw [unit.denote_injective hvalue]⟩

/-- The chain of a binding runs on each number of a scalar type, or on each array of such numbers,
and gives the same quantities in the gold unit. -/
def PreservesUnits (child : ChildField) (gold : Unit) (binding : Binding) (domain : ScalarType) :
    Prop :=
  ∃ unit, child.unit = some unit ∧
    if child.isArray then
      ∀ numbers : List ExactNumber, (∀ number ∈ numbers, number.ty.widensLosslesslyTo domain) →
        ∃ results, measuredOps binding.source.toString binding.ops
            (.array (numbers.map ExactNumber.measured)) = .ok (.array results) ∧
          List.Forall₂ (SameQuantity unit gold) numbers results
    else
      ∀ number : ExactNumber, number.ty.widensLosslesslyTo domain →
        ∃ result, measuredOps binding.source.toString binding.ops number.measured = .ok result ∧
          SameQuantity unit gold number result

/-! ## What a chain does to numbers -/

/-- The rules that the conversions of a chain cite, composed. -/
def citedMap : List Op → Option (Affine ℚ)
  | [] => some (.refl ℚ)
  | .unitConvert _ _ ruleId :: ops =>
    (rule ruleId).bind fun rule ↦ (citedMap ops).map fun rest ↦ rest.comp rule.map
  | .cast _ :: ops => citedMap ops
  | .default _ _ :: ops => citedMap ops
  | .arrayMap _ :: ops => citedMap ops

/-- Casts that fit and no array operators: the chain of a number of the given type only fails at an
unknown rule. -/
def runsOnNumbers : ScalarType → List Op → Bool
  | _, [] => true
  | ty, .cast target :: ops => ty.widensLosslesslyTo target && runsOnNumbers ty ops
  | _, .unitConvert _ _ _ :: ops => runsOnNumbers .decimal ops
  | ty, .default _ _ :: ops => runsOnNumbers ty ops
  | _, .arrayMap _ :: _ => false

/-- What a chain that maps arrays to arrays does to their elements. -/
def elementOps : List Op → Option (List Op)
  | [] => some []
  | .arrayMap inner :: ops => (elementOps ops).map fun rest ↦ inner ++ rest
  | .default _ _ :: ops => elementOps ops
  | .cast _ :: _ => none
  | .unitConvert _ _ _ :: _ => none

theorem runsOnNumbers_of_widens {ty target : ScalarType} (hwidens : ty.widensLosslesslyTo target)
    {ops : List Op} (hruns : runsOnNumbers target ops) : runsOnNumbers ty ops := by
  induction ops with
  | nil => rfl
  | cons op ops ih =>
      cases op with
      | cast castTo =>
          rw [runsOnNumbers, Bool.and_eq_true_iff] at hruns ⊢
          exact ⟨ScalarType.widensLosslesslyTo_trans hwidens hruns.1, ih hruns.2⟩
      | unitConvert source converted ruleId => exact hruns
      | default value synthetic => exact ih hruns
      | arrayMap inner => contradiction

variable (srcPath : String)

theorem measuredOps_number_iff {ops : List Op} {ty : ScalarType} {value result : ℚ} :
    (∃ last, measuredOps srcPath ops (.number ty value) = .ok (.number last result)) ↔
      runsOnNumbers ty ops ∧ ∃ map, citedMap ops = some map ∧ map.apply value = result := by
  induction ops generalizing ty value with
  | nil => simp [measuredOps, runsOnNumbers, citedMap]
  | cons op ops ih =>
      simp only [measuredOps, Except.bind_eq_ok]
      cases op with
      | cast castTo =>
          by_cases hwidens : ty.widensLosslesslyTo castTo
          · simpa [measuredOp, Measured.scalarType, runsOnNumbers, citedMap, hwidens] using ih
          · simp [measuredOp, Measured.scalarType, runsOnNumbers, hwidens]
      | unitConvert source converted ruleId =>
          cases hrule : (rule ruleId : Option (ConversionRule ℚ)) with
          | none => simp [measuredOp, convert, citedMap, hrule]
          | some found =>
              have happly : found.map.apply value = value * found.factor + found.offset := rfl
              simpa [measuredOp, convert, runsOnNumbers, citedMap, hrule, happly] using ih
      | default value synthetic => simpa [measuredOp, runsOnNumbers, citedMap] using ih
      | arrayMap inner => simp [measuredOp, runsOnNumbers]

theorem measuredOps_array_iff {ops : List Op} {items : List (Measured ℚ)} {result : Measured ℚ} :
    measuredOps srcPath ops (.array items) = .ok result ↔
      ∃ inner, elementOps ops = some inner ∧ ∃ results, result = .array results ∧
        items.mapM (measuredOps srcPath inner) = .ok results := by
  induction ops generalizing items with
  | nil =>
      have hsame : items.mapM (measuredOps srcPath []) = .ok items :=
        Except.mapM_eq_ok_iff.mpr (List.forall₂_same.mpr fun item _ ↦ rfl)
      constructor
      · intro hresult
        cases hresult
        exact ⟨[], rfl, items, rfl, hsame⟩
      · rintro ⟨_, hinner, results, rfl, hresults⟩
        cases hinner
        cases hsame.symm.trans hresults
        rfl
  | cons op ops ih =>
      rw [measuredOps, Except.bind_eq_ok]
      cases op with
      | cast castTo => simp [measuredOp, Measured.scalarType, elementOps]
      | unitConvert source converted ruleId => simp [measuredOp, elementOps]
      | default value synthetic => simpa [measuredOp, elementOps] using ih
      | arrayMap inner =>
          have happend (rest : List Op) : measuredOps (F := ℚ) srcPath (inner ++ rest) =
              fun item ↦ measuredOps srcPath inner item >>= measuredOps srcPath rest :=
            funext (measuredOps_append srcPath inner rest)
          simp only [elementOps, Option.map_eq_some_iff]
          constructor
          · rintro ⟨value, hvalue, hresult⟩
            obtain ⟨middle, hmiddle, rfl⟩ : ∃ middle, items.mapM (measuredOps srcPath inner) =
                .ok middle ∧ Measured.array middle = value := Except.map_eq_ok.mp hvalue
            obtain ⟨rest, hrest, results, rfl, hresults⟩ := ih.mp hresult
            refine ⟨inner ++ rest, ⟨rest, hrest, rfl⟩, results, rfl, ?_⟩
            rw [happend]
            exact Except.mapM_bind_eq_ok.mpr ⟨middle, hmiddle, hresults⟩
          · rintro ⟨_, ⟨rest, hrest, rfl⟩, results, rfl, hresults⟩
            rw [happend] at hresults
            obtain ⟨middle, hmiddle, hresults⟩ := Except.mapM_bind_eq_ok.mp hresults
            exact ⟨.array middle, Except.map_eq_ok.mpr ⟨middle, hmiddle, rfl⟩,
              ih.mpr ⟨rest, hrest, results, rfl, hresults⟩⟩

/-! ## Chains that keep quantities -/

/-- The chain runs on the numbers of a scalar type, and the rules it cites change the scale of one
unit to the scale of the other. -/
def ChainKeeps (domain : ScalarType) (unit gold : Unit) (ops : List Op) : Prop :=
  runsOnNumbers domain ops ∧
    ∃ map, citedMap ops = some map ∧ gold.kind = unit.kind ∧ gold.toBase.comp map = unit.toBase

theorem sameQuantity_iff {ops : List Op} {unit gold : Unit} {number : ExactNumber} :
    (∃ result, measuredOps srcPath ops number.measured = .ok result ∧
        SameQuantity unit gold number result) ↔
      runsOnNumbers number.ty ops ∧
        ∃ map, citedMap ops = some map ∧
          gold.denote (map.apply number.value) = unit.denote number.value := by
  constructor
  · rintro ⟨_, hops, ty, value, rfl, hvalue⟩
    obtain ⟨hruns, map, hmap, rfl⟩ := (measuredOps_number_iff srcPath).mp ⟨ty, hops⟩
    exact ⟨hruns, map, hmap, hvalue⟩
  · rintro ⟨hruns, map, hmap, hvalue⟩
    obtain ⟨last, hops⟩ := (measuredOps_number_iff srcPath).mpr ⟨hruns, map, hmap, rfl⟩
    exact ⟨_, hops, last, _, rfl, hvalue⟩

/-- A whole number of a numeric type. -/
def wholeNumber (domain : ScalarType) (value : ℤ) : ExactNumber where
  value := value
  integral := domain = .integer
  exact _ := ⟨value, rfl⟩

theorem wholeNumber_ty {domain : ScalarType} (hdomain : domain.isNumeric) (value : ℤ) :
    (wholeNumber domain value).ty = domain := by
  cases domain <;> first | rfl | contradiction

variable {domain : ScalarType} {unit gold : Unit} {ops : List Op}

/-- All numbers keep their quantities if zero and one do. -/
theorem scalar_preserves_iff (hdomain : domain.isNumeric) :
    (∀ number : ExactNumber, number.ty.widensLosslesslyTo domain →
      ∃ result, measuredOps srcPath ops number.measured = .ok result ∧
        SameQuantity unit gold number result) ↔
      ChainKeeps domain unit gold ops := by
  simp only [sameQuantity_iff]
  constructor
  · intro hall
    have hwhole (value : ℤ) := hall (wholeNumber domain value)
      (by rw [wholeNumber_ty hdomain, ScalarType.widensLosslesslyTo_refl])
    simp only [wholeNumber_ty hdomain] at hwhole
    obtain ⟨hruns, map, hmap, hzero⟩ := hwhole 0
    obtain ⟨-, other, hother, hone⟩ := hwhole 1
    obtain rfl : map = other := Option.some.inj (hmap.symm.trans hother)
    refine ⟨hruns, map, hmap, congrArg Quantity.kind hzero, Affine.eq_of_apply ?_ ?_⟩
    · simpa [wholeNumber, Unit.denote] using congrArg Quantity.amount hzero
    · simpa [wholeNumber, Unit.denote] using congrArg Quantity.amount hone
  · rintro ⟨hruns, map, hmap, hkind, hscale⟩ number hnumber
    refine ⟨runsOnNumbers_of_widens hnumber hruns, map, hmap, ?_⟩
    calc gold.denote (map.apply number.value)
        = ⟨gold.kind, (gold.toBase.comp map).apply number.value⟩ := by
          rw [Affine.apply_comp, Unit.denote]
      _ = unit.denote number.value := by rw [hkind, hscale, Unit.denote]

/-- Arrays keep their quantities if the numbers in them do. -/
theorem array_preserves_iff (hdomain : domain.isNumeric) :
    (∀ numbers : List ExactNumber, (∀ number ∈ numbers, number.ty.widensLosslesslyTo domain) →
      ∃ results, measuredOps srcPath ops (.array (numbers.map ExactNumber.measured)) =
          .ok (.array results) ∧
        List.Forall₂ (SameQuantity unit gold) numbers results) ↔
      ∃ inner, elementOps ops = some inner ∧ ChainKeeps domain unit gold inner := by
  constructor
  · intro hall
    obtain ⟨_, hempty, -⟩ := hall [] (by simp)
    obtain ⟨inner, hinner, -⟩ := (measuredOps_array_iff srcPath).mp hempty
    refine ⟨inner, hinner, (scalar_preserves_iff srcPath hdomain).mp fun number hnumber ↦ ?_⟩
    obtain ⟨results, hops, hsame⟩ := hall [number] (by simpa using hnumber)
    obtain ⟨other, hother, _, heq, hmap⟩ := (measuredOps_array_iff srcPath).mp hops
    obtain rfl : inner = other := Option.some.inj (hinner.symm.trans hother)
    cases heq
    obtain ⟨result, _, hresult, -, rfl⟩ := List.forall₂_cons_left_iff.mp hsame
    exact ⟨result, (List.forall₂_cons.mp (Except.mapM_eq_ok_iff.mp hmap)).1, hresult⟩
  · rintro ⟨inner, hinner, hkeeps⟩ numbers hnumbers
    have hsame := (scalar_preserves_iff srcPath hdomain).mpr hkeeps
    obtain ⟨results, hresults, hall⟩ := Except.mapM_forall₂ fun number hnumber ↦
      hsame number (hnumbers number hnumber)
    refine ⟨results, (measuredOps_array_iff srcPath).mpr ⟨inner, hinner, results, rfl, ?_⟩, hall⟩
    rw [List.mapM_map]
    exact hresults

/-! ## Verified chains -/

/-- Static verification follows the unit of the number; a currency stays what it is. -/
theorem units_of_foldOps {target : String} {ty : ScalarType}
    (hissues : (foldOps target ty (some unit) ops).1 = [])
    (hlast : (foldOps target ty (some unit) ops).2.2 = some gold) :
    (unit.system = .iso4217 → gold = unit) ∧
      (unit.system ≠ .iso4217 → ∃ map, citedMap ops = some map ∧ gold.kind = unit.kind ∧
        gold.toBase.comp map = unit.toBase) := by
  induction ops generalizing ty unit with
  | nil =>
      obtain rfl : unit = gold := Option.some.inj hlast
      exact ⟨fun _ ↦ rfl, fun _ ↦ ⟨.refl ℚ, rfl, rfl, Affine.comp_refl _⟩⟩
  | cons op ops ih =>
      cases op with
      | cast castTo => exact ih (foldOps_cast_eq_nil hissues).2 hlast
      | default value synthetic => exact ih hissues hlast
      | arrayMap inner => exact ih hissues hlast
      | unitConvert source converted ruleId =>
          obtain ⟨hunit, hverified, hrest⟩ := foldOps_unitConvert_eq_nil hissues
          obtain rfl : unit = source := Option.some.inj hunit
          obtain ⟨hcurrency, hkept⟩ := ih hrest hlast
          constructor
          · intro hsystem
            obtain rfl := verifyConversion_currency hverified hsystem
            exact hcurrency hsystem
          · intro hsystem
            obtain ⟨hconverted, hkind, found, hfound, hscale⟩ :=
              verifyConversion_denotes hverified hsystem
            obtain ⟨map, hmap, hgold, hrestScale⟩ := hkept hconverted
            refine ⟨map.comp found.map, ?_, hgold.trans hkind, ?_⟩
            · simp [citedMap, hfound, hmap]
            · rw [← Affine.comp_assoc, hrestScale, hscale]

/-- Without a declared unit there is none at the end. -/
theorem foldOps_none {target : String} {ty : ScalarType}
    (hissues : (foldOps target ty none ops).1 = []) : (foldOps target ty none ops).2.2 = none := by
  induction ops generalizing ty with
  | nil => rfl
  | cons op ops ih =>
      cases op with
      | cast castTo => exact ih (foldOps_cast_eq_nil hissues).2
      | default value synthetic => exact ih hissues
      | arrayMap inner => exact ih hissues
      | unitConvert source converted ruleId =>
          exact absurd (foldOps_unitConvert_eq_nil hissues).1 (Option.some_ne_none source).symm

/-- On the numbers of the child's type a verified chain can only fail at an array operator or an
unknown rule. -/
theorem runsOnNumbers_of_foldOps {target : String} {ty : ScalarType} {unit : Option Unit}
    (hissues : (foldOps target ty unit ops).1 = [])
    (hnested : ∀ inner, .arrayMap inner ∉ ops) : runsOnNumbers ty ops := by
  induction ops generalizing ty unit with
  | nil => rfl
  | cons op ops ih =>
      have hops : ∀ inner, .arrayMap inner ∉ ops := fun inner hmem ↦
        hnested inner (List.mem_cons_of_mem _ hmem)
      cases op with
      | cast castTo =>
          obtain ⟨hwidens, hissues⟩ := foldOps_cast_eq_nil hissues
          rw [runsOnNumbers, hwidens, Bool.true_and]
          exact runsOnNumbers_of_widens hwidens (ih hissues hops)
      | unitConvert source converted ruleId =>
          exact ih (foldOps_unitConvert_eq_nil hissues).2.2 hops
      | default value synthetic => exact ih hissues hops
      | arrayMap inner => exact absurd List.mem_cons_self (hnested inner)

/-- What is left to check of a verified binding. A scalar chain has to run on numbers, and the rules
that it cites for a currency have to cancel out. The rules for the elements of an array have to be
the change of scale, and under a synthetic default the scales have to be the same. -/
def UnitsKept (child : ChildField) (gold : Unit) (binding : Binding) (domain : ScalarType) : Prop :=
  if child.isArray then
    ∃ unit, child.unit = some unit ∧
      ∃ inner, elementOps binding.ops = some inner ∧ ChainKeeps domain unit gold inner
  else if isSyntheticOnly binding then
    ∃ unit, child.unit = some unit ∧ gold.kind = unit.kind ∧ gold.toBase = unit.toBase
  else
    runsOnNumbers domain binding.ops ∧
      ∀ unit, child.unit = some unit → unit.system = .iso4217 →
        citedMap binding.ops = some (.refl ℚ)

theorem defaults_of_isSyntheticOnly {binding : Binding} (hsynthetic : isSyntheticOnly binding) :
    runsOnNumbers domain binding.ops ∧ citedMap binding.ops = some (.refl ℚ) := by
  have hdefaults := (Bool.and_eq_true_iff.mp hsynthetic).2
  generalize binding.ops = ops at hdefaults
  induction ops with
  | nil => exact ⟨rfl, rfl⟩
  | cons op ops ih =>
      cases op with
      | default value synthetic => exact ih hdefaults
      | _ => contradiction

theorem preservesUnits_iff_chainKeeps {child : ChildField} {binding : Binding}
    (hdomain : domain.isNumeric) (harray : child.isArray = false) :
    PreservesUnits child gold binding domain ↔
      ∃ unit, child.unit = some unit ∧ ChainKeeps domain unit gold binding.ops := by
  rw [PreservesUnits]
  refine exists_congr fun unit ↦ and_congr_right fun _ ↦ ?_
  rw [harray, if_neg Bool.false_ne_true]
  exact scalar_preserves_iff binding.source.toString hdomain

/-- A verified scalar chain keeps the quantities exactly if it runs on numbers and the rules it
cites for a currency cancel out. -/
theorem chainKeeps_iff {child : ChildField} {field : UmbrellaField} {binding : Binding}
    {target : String} (hchain : checkOpChain child field binding target = [])
    (hsynthetic : isSyntheticOnly binding = false) (harray : child.isArray = false)
    (hgold : field.unit = some gold) :
    (∃ unit, child.unit = some unit ∧ ChainKeeps domain unit gold binding.ops) ↔
      runsOnNumbers domain binding.ops ∧
        ∀ unit, child.unit = some unit → unit.system = .iso4217 →
          citedMap binding.ops = some (.refl ℚ) := by
  obtain ⟨want, -, hissues, -, hlast⟩ := checkOpChain_eq_nil hchain hsynthetic harray
  rw [hgold] at hlast
  have hlast := hlast rfl
  cases hunit : child.unit with
  | none =>
      rw [hunit] at hissues hlast
      rw [foldOps_none hissues] at hlast
      contradiction
  | some unit =>
      rw [hunit] at hissues hlast
      obtain ⟨hcurrency, hkept⟩ := units_of_foldOps hissues hlast
      constructor
      · rintro ⟨_, ⟨rfl⟩, hruns, map, hmap, hkind, hscale⟩
        refine ⟨hruns, ?_⟩
        rintro _ ⟨rfl⟩ hsystem
        obtain rfl := hcurrency hsystem
        have hbase : gold.toBase = .refl ℚ := by rw [Unit.toBase, hsystem]
        rw [hbase, Affine.refl_comp] at hscale
        rw [hmap, hscale]
      · rintro ⟨hruns, hcancel⟩
        refine ⟨unit, rfl, hruns, ?_⟩
        by_cases hsystem : unit.system = .iso4217
        · obtain rfl := hcurrency hsystem
          exact ⟨.refl ℚ, hcancel gold rfl hsystem, rfl, Affine.comp_refl _⟩
        · exact hkept hsystem

/-- A verified scalar chain without array operators, from a unit that is no currency, keeps the
quantities of the numbers that have the child's type. -/
theorem preservesUnits_of_checkOpChain {child : ChildField} {field : UmbrellaField}
    {binding : Binding} {target : String} (hchain : checkOpChain child field binding target = [])
    (hsynthetic : isSyntheticOnly binding = false) (harray : child.isArray = false)
    (hgold : field.unit = some gold) (hnumeric : child.ty.isNumeric)
    (hnested : ∀ inner, .arrayMap inner ∉ binding.ops)
    (hsystem : ∀ unit, child.unit = some unit → unit.system ≠ .iso4217) :
    PreservesUnits child gold binding child.ty := by
  obtain ⟨_, -, hissues, -, -⟩ := checkOpChain_eq_nil hchain hsynthetic harray
  rw [preservesUnits_iff_chainKeeps hnumeric harray, chainKeeps_iff hchain hsynthetic harray hgold]
  exact ⟨runsOnNumbers_of_foldOps hissues hnested,
    fun unit hunit hcurrency ↦ absurd hcurrency (hsystem unit hunit)⟩

/-- A verified binding keeps the quantities of its source exactly if the open checks hold. -/
theorem verify_static_preserves_units_iff {transform : ChildTransform} {umbrella : UmbrellaSchema}
    {childFields : List ChildField} (hverified : verifyStatic transform umbrella childFields = [])
    {binding : Binding} (hbinding : binding ∈ transform.bindings) {child : ChildField}
    (hchild : childFields.find? (fun child ↦ child.path = binding.source) = some child)
    {field : UmbrellaField} (hfield : umbrella.field binding.target = some field) {gold : Unit}
    (hgold : field.unit = some gold) {domain : ScalarType} (hdomain : domain.isNumeric) :
    PreservesUnits child gold binding domain ↔ UnitsKept child gold binding domain := by
  obtain ⟨_, _, hchecked⟩ := exists_checkedBinding hverified hbinding
  obtain rfl := Option.some.inj (hchecked.source.symm.trans hchild)
  obtain rfl := Option.some.inj (hchecked.target.symm.trans hfield)
  unfold UnitsKept
  split_ifs with harray hsynthetic
  · rw [PreservesUnits]
    refine exists_congr fun unit ↦ and_congr_right fun _ ↦ ?_
    rw [if_pos harray]
    exact array_preserves_iff binding.source.toString hdomain
  · rw [preservesUnits_iff_chainKeeps hdomain (Bool.eq_false_iff.mpr harray)]
    refine exists_congr fun unit ↦ and_congr_right fun _ ↦ ?_
    obtain ⟨hruns, hmap⟩ := @defaults_of_isSyntheticOnly domain binding hsynthetic
    simp [ChainKeeps, hruns, hmap]
  · rw [preservesUnits_iff_chainKeeps hdomain (Bool.eq_false_iff.mpr harray)]
    exact chainKeeps_iff hchecked.chain (Bool.eq_false_iff.mpr hsynthetic)
      (Bool.eq_false_iff.mpr harray) hgold

theorem verify_static_preserves_units_weather :
    PreservesUnits ⟨⟨["main", "temp"], List.cons_ne_nil _ _⟩, .decimal, some celsius, false⟩ kelvin
      ⟨⟨["main", "temp"], List.cons_ne_nil _ _⟩, key "air_temperature",
        [.cast .decimal, .unitConvert celsius kelvin "ucum:Cel->K"], .reject⟩ .decimal := by
  refine (@verify_static_preserves_units_iff weather.transform weather.umbrella weather.childFields
    (by decide +kernel) _ List.mem_cons_self _ rfl _ rfl _ rfl _ rfl).mpr ⟨rfl, ?_⟩
  rintro _ ⟨rfl⟩ hsystem
  contradiction

def euro : Unit := ⟨.iso4217, "EUR"⟩

/-- An amount in euros is passed through under the rule for kilometres. -/
def passthrough : Sample :=
  bindOne .decimal false (.scalar .decimal) (some euro, some euro)
    [.unitConvert euro euro "ucum:km->m"] .reject (some (.number (.literal "1.5")))

/-- A passthrough without issues multiplies by a thousand. -/
theorem verify_static_scales_currency :
    ¬ ∀ (transform : ChildTransform) (umbrella : UmbrellaSchema) (childFields : List ChildField),
      verifyStatic transform umbrella childFields = [] →
      ∀ binding ∈ transform.bindings, ∀ child,
        childFields.find? (fun child ↦ child.path = binding.source) = some child →
      ∀ field, umbrella.field binding.target = some field →
      ∀ gold, field.unit = some gold → PreservesUnits child gold binding .decimal := by
  intro hall
  have hpreserves := hall passthrough.transform passthrough.umbrella passthrough.childFields
    (by decide +kernel) _ List.mem_cons_self _ rfl _ rfl euro rfl
  obtain ⟨_, ⟨rfl⟩, hkeeps⟩ := (preservesUnits_iff_chainKeeps rfl rfl).mp hpreserves
  obtain ⟨-, map, hmap, -, hscale⟩ := hkeeps
  have hcited : citedMap [.unitConvert euro euro "ucum:km->m"] = some ⟨1000, 0⟩ := by
    decide +kernel
  obtain rfl : ⟨1000, 0⟩ = map := Option.some.inj (hcited.symm.trans hmap)
  exact absurd hscale (by decide +kernel)

end Deblob.Umbrella
