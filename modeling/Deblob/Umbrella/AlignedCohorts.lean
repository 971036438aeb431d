import Deblob.Umbrella.Executable

/-!
# Cohorts of one typed signature

The canonical ids of a group come from the signature its members share, so every gold field is made
from a field of a member. Where an id has one type, unit and array flag in the whole group and every
path names one field, the alignment is executable exactly if no annotated field is an array.
-/

namespace Deblob.Umbrella

open Lib

section Cohort

variable {sig : List (String × String)} {members : List (List AnnotatedField)}
  {member : List AnnotatedField}

theorem contributed_of_typedSignature (hmember : member ∈ members)
    (hsig : typedSignature member = sig) : Contributed (sig.map Prod.fst) members := by
  intro id hid
  rcases List.mem_map.mp hid with ⟨entry, hentry, rfl⟩
  rw [← hsig] at hentry
  rcases mem_typedSignature.mp hentry with ⟨field, hfield, hfieldSig⟩
  rcases Option.map_eq_some_iff.mp hfieldSig with ⟨id, hannotation, rfl⟩
  exact List.find?_isSome.mpr
    ⟨field, List.mem_flatten_of_mem hmember hfield, decide_eq_true hannotation⟩

/-- The umbrella of a group and the transforms of its members are executable if the fields of every
member can be allotted to the gold paths. -/
theorem alignment_executes_iff (hsig : ∀ member ∈ members, typedSignature member = sig) :
    (∀ member ∈ members, Executes (buildUmbrella (sig.map Prod.fst) members) member) ↔
      ∀ member ∈ members, ∃ owner, Allotment (sig.map Prod.fst) members member owner := by
  apply forall₂_congr
  intro member hmember
  exact executes_iff_allotment (contributed_of_typedSignature hmember (hsig member hmember))

/-! ## Groups whose ids and paths are unambiguous -/

/-- An id has one type, unit and array flag, and every path names one field. -/
structure PlainCohort (sig : List (String × String)) (members : List (List AnnotatedField)) :
    Prop where
  agree : ∀ field ∈ members.flatten, ∀ other ∈ members.flatten, field.canonicalFieldId.isSome →
    field.canonicalFieldId = other.canonicalFieldId →
      field.ty = other.ty ∧ field.unit = other.unit ∧ field.isArray = other.isArray
  sources : ∀ member ∈ members, (member.map (·.path)).Nodup
  targets : (goldPaths (sig.map Prod.fst)).Nodup

theorem contributor_spec {id : String} {source : AnnotatedField}
    (hsource : contributor members id = some source) :
    source ∈ members.flatten ∧ source.canonicalFieldId = some id :=
  ⟨List.mem_of_find?_eq_some hsource, by simpa using List.find?_some hsource⟩

theorem PlainCohort.nodup_ids (hplain : PlainCohort sig members) (hmember : member ∈ members)
    (hsig : typedSignature member = sig) : (sig.map Prod.fst).Nodup := by
  apply List.Nodup.map_on _ (hsig ▸ nodup_typedSignature member)
  intro left hleft right hright heq
  rw [← hsig] at hleft hright
  rcases mem_typedSignature.mp hleft with ⟨field, hfield, hfieldSig⟩
  rcases mem_typedSignature.mp hright with ⟨other, hother, hotherSig⟩
  rcases Option.map_eq_some_iff.mp hfieldSig with ⟨id, hid, rfl⟩
  rcases Option.map_eq_some_iff.mp hotherSig with ⟨otherId, hotherId, rfl⟩
  have hsame : id = otherId := heq
  rcases hplain.agree field (List.mem_flatten_of_mem hmember hfield) other
    (List.mem_flatten_of_mem hmember hother) (by rw [hid]; rfl) (by rw [hid, hotherId, hsame])
    with ⟨hty, -, harray⟩
  rw [hsame, fieldTypeTag, fieldTypeTag, hty, harray]

/-- A slot is known by its id or by its path. -/
theorem PlainCohort.slot_unique (hplain : PlainCohort sig members) (hmember : member ∈ members)
    (hsig : typedSignature member = sig) {slot other : String × JsonPath}
    (hslot : slot ∈ slots (sig.map Prod.fst)) (hother : other ∈ slots (sig.map Prod.fst))
    (heq : slot.1 = other.1 ∨ slot.2 = other.2) : slot = other := by
  rcases heq with heq | heq
  · have hids : ((slots (sig.map Prod.fst)).map Prod.fst).Nodup := by
      rw [map_fst_slots]
      exact hplain.nodup_ids hmember hsig
    exact List.inj_on_of_nodup_map hids hslot hother heq
  · exact List.inj_on_of_nodup_map hplain.targets hslot hother heq

/-- The first field of a slot's id. -/
theorem exists_first (hsig : typedSignature member = sig) {slot : String × JsonPath}
    (hslot : slot ∈ slots (sig.map Prod.fst)) :
    ∃ field before after, field.canonicalFieldId = some slot.1 ∧
      member = before ++ field :: after ∧
        ∀ earlier ∈ before, earlier.canonicalFieldId ≠ some slot.1 := by
  have hid : slot.1 ∈ sig.map Prod.fst :=
    map_fst_slots (sig.map Prod.fst) ▸ List.mem_map_of_mem hslot
  rcases List.mem_map.mp hid with ⟨entry, hentry, heq⟩
  rw [← hsig] at hentry
  rcases mem_typedSignature.mp hentry with ⟨other, hother, hotherSig⟩
  rcases Option.map_eq_some_iff.mp hotherSig with ⟨id, hotherId, rfl⟩
  have hfound : (member.find? fun field ↦ field.canonicalFieldId = some slot.1).isSome :=
    List.find?_isSome.mpr ⟨other, hother, decide_eq_true (heq ▸ hotherId)⟩
  rcases Option.isSome_iff_exists.mp hfound with ⟨field, hfield⟩
  rcases List.find?_eq_some_iff_append.mp hfield with ⟨hfieldId, before, after, hsplit, hbefore⟩
  exact ⟨field, before, after, by simpa using hfieldId, hsplit,
    fun earlier hearlier ↦ by simpa using hbefore earlier hearlier⟩

theorem slot_of_offers {cfids : List String} {field : AnnotatedField} {path : JsonPath}
    (hoffers : path ∈ offers cfids members field) :
    ∃ id, field.canonicalFieldId = some id ∧ (id, path) ∈ slots cfids := by
  rcases List.mem_map.mp hoffers with ⟨⟨id, target⟩, hslot, rfl⟩
  rcases List.mem_filter.mp hslot with ⟨hmem, hid⟩
  simp only [Bool.and_eq_true, decide_eq_true_eq] at hid
  exact ⟨id, hid.1, hmem⟩

theorem PlainCohort.isArray_of_allotment (hplain : PlainCohort sig members)
    (hmember : member ∈ members) (hsig : typedSignature member = sig)
    {owner : JsonPath → AnnotatedField}
    (hallot : Allotment (sig.map Prod.fst) members member owner) {field : AnnotatedField}
    (hfield : field ∈ member) {id : String} (hid : field.canonicalFieldId = some id) :
    field.isArray = false := by
  have hcontributor := contributed_of_typedSignature hmember hsig
  have hentry : (id, fieldTypeTag field.toChildField) ∈ sig := by
    rw [← hsig, mem_typedSignature]
    exact ⟨field, hfield, by rw [fieldSig, hid]; rfl⟩
  have hmem : id ∈ sig.map Prod.fst := List.mem_map_of_mem hentry
  rw [← map_fst_slots (sig.map Prod.fst)] at hmem
  rcases List.mem_map.mp hmem with ⟨⟨id, path⟩, hslot, rfl⟩
  have hpath : path ∈ goldPaths (sig.map Prod.fst) := List.mem_map_of_mem hslot
  rcases hallot.offered path hpath with ⟨howner, hoffers⟩
  rcases slot_of_offers hoffers with ⟨ownerId, hownerId, hownerSlot⟩
  cases hplain.slot_unique hmember hsig hownerSlot hslot (.inr rfl)
  rcases field_goldSchema hcontributor hpath with ⟨_, wanted, _, hwanted, _⟩
  rcases Option.isSome_iff_exists.mp (hcontributor _ (List.mem_map_of_mem hentry)) with
    ⟨source, hsource⟩
  have hdelivers := hallot.delivers path hpath source (by rw [sourceOf, hownerId]; exact hsource)
    wanted hwanted
  rw [← hdelivers.scalar]
  exact (hplain.agree field (List.mem_flatten_of_mem hmember hfield) (owner path)
    (List.mem_flatten_of_mem hmember howner) (by rw [hid]; rfl) (by rw [hid, hownerId])).2.2

/-- The first fields of the ids are an allotment, if none of them is an array. -/
theorem PlainCohort.exists_allotment (hplain : PlainCohort sig members)
    (hmember : member ∈ members) (hsig : typedSignature member = sig)
    (hscalar : ∀ field ∈ member, field.canonicalFieldId.isSome → field.isArray = false) :
    ∃ owner, Allotment (sig.map Prod.fst) members member owner := by
  have hcontributor := contributed_of_typedSignature hmember hsig
  have hfirst : ∀ path, ∃ field : AnnotatedField, ∀ slot ∈ slots (sig.map Prod.fst),
      slot.2 = path → ∃ before after, field.canonicalFieldId = some slot.1 ∧
        member = before ++ field :: after ∧
          ∀ earlier ∈ before, earlier.canonicalFieldId ≠ some slot.1 := by
    intro path
    by_cases hpath : path ∈ goldPaths (sig.map Prod.fst)
    · rcases List.mem_map.mp hpath with ⟨slot, hslot, rfl⟩
      rcases exists_first hsig hslot with ⟨field, before, after, hspec⟩
      refine ⟨field, fun other hother heq ↦ ⟨before, after, ?_⟩⟩
      rw [hplain.slot_unique hmember hsig hother hslot (.inr heq)]
      exact hspec
    · exact ⟨⟨⟨path, .bool, none, false⟩, none⟩, fun slot hslot heq ↦
        absurd (heq ▸ List.mem_map_of_mem hslot) hpath⟩
  choose owner howner using hfirst
  have hagree : ∀ field ∈ member, ∀ id, field.canonicalFieldId = some id → ∀ source,
      contributor members id = some source → field.ty = source.ty ∧ field.unit = source.unit := by
    intro field hfield id hid source hsource
    rcases contributor_spec hsource with ⟨hmem, hsourceId⟩
    rcases hplain.agree field (List.mem_flatten_of_mem hmember hfield) source hmem
      (by rw [hid]; rfl) (by rw [hid, hsourceId]) with ⟨hty, hunit, -⟩
    exact ⟨hty, hunit⟩
  have hmem : ∀ slot ∈ slots (sig.map Prod.fst), owner slot.2 ∈ member := by
    intro slot hslot
    rcases howner slot.2 slot hslot rfl with ⟨before, after, -, hsplit, -⟩
    rw [hsplit]
    simp
  have hid : ∀ slot ∈ slots (sig.map Prod.fst),
      (owner slot.2).canonicalFieldId = some slot.1 := by
    intro slot hslot
    rcases howner slot.2 slot hslot rfl with ⟨-, -, hspec, -, -⟩
    exact hspec
  have hpaths : ∀ path ∈ goldPaths (sig.map Prod.fst), ∃ slot ∈ slots (sig.map Prod.fst),
      slot.2 = path := fun path hpath ↦ List.mem_map.mp hpath
  have halone : ∀ path ∈ goldPaths (sig.map Prod.fst),
      (member.map (·.path)).count (owner path).path = 1 := by
    intro path hpath
    rcases hpaths path hpath with ⟨slot, hslot, rfl⟩
    exact List.count_eq_one_of_mem (hplain.sources member hmember)
      (List.mem_map_of_mem (hmem slot hslot))
  refine ⟨owner, ?_, ?_, ?_, halone, ?_⟩
  · intro path hpath
    rcases hpaths path hpath with ⟨slot, hslot, rfl⟩
    rcases Option.isSome_iff_exists.mp (hcontributor slot.1
      (map_fst_slots (sig.map Prod.fst) ▸ List.mem_map_of_mem hslot)) with ⟨source, hsource⟩
    rcases hagree _ (hmem slot hslot) _ (hid slot hslot) source hsource with ⟨hty, hunit⟩
    refine ⟨hmem slot hslot, List.mem_map.mpr ⟨slot, List.mem_filter.mpr ⟨hslot, ?_⟩, rfl⟩⟩
    simp [hid slot hslot, hsource, bindable, hty, hunit]
  · intro path hpath other hother heq
    rcases hpaths path hpath with ⟨slot, hslot, rfl⟩
    rcases hpaths other hother with ⟨second, hsecond, rfl⟩
    have hsame := (hid slot hslot).symm.trans ((congrArg (·.canonicalFieldId) heq).trans
      (hid second hsecond))
    rw [hplain.slot_unique hmember hsig hslot hsecond (.inl (Option.some.inj hsame))]
  · intro path hpath before after hsplit earlier hearlier hoffers
    rcases slot_of_offers hoffers with ⟨id, hearlierId, hslot⟩
    rcases howner path (id, path) hslot rfl with ⟨sooner, later, -, hfirstSplit, hnone⟩
    have hsooner : earlier ∈ sooner := by
      rw [hfirstSplit, List.append_eq_append_iff] at hsplit
      rcases hsplit with ⟨between, rfl, hrest⟩ | ⟨between, rfl, -⟩
      · cases between with
        | nil => rwa [List.append_nil] at hearlier
        | cons head between =>
            cases hrest
            exact absurd rfl (@ne_of_count_eq_one _ _ _ (·.path) _ _ (owner path) _ _ hfirstSplit
              (halone path hpath) (by simp))
      · exact List.mem_append_left _ hearlier
    exact absurd hearlierId (hnone earlier hsooner)
  · intro path hpath source hsource wanted hwanted
    rcases hpaths path hpath with ⟨slot, hslot, rfl⟩
    rw [sourceOf, hid slot hslot, Option.mem_def, Option.bind_some] at hsource
    rcases Option.bind_eq_some_iff.mp hwanted with ⟨first, hfound, hcontributed⟩
    have hsame : first = slot := hplain.slot_unique hmember hsig (List.mem_of_find?_eq_some hfound)
      hslot (.inr (by simpa using List.find?_some hfound))
    rw [hsame, hsource] at hcontributed
    cases hcontributed
    rcases hagree _ (hmem slot hslot) _ (hid slot hslot) source hsource with ⟨hty, hunit⟩
    refine ⟨hscalar _ (hmem slot hslot) (by rw [hid slot hslot]; rfl), ?_, .inl hunit, .inr rfl⟩
    rw [if_pos hunit]
    exact ScalarType.widensLosslesslyTo_refl _

/-- Where ids and paths are unambiguous, the alignment is executable exactly without arrays. -/
theorem plainCohort_executes_iff (hplain : PlainCohort sig members)
    (hsig : ∀ member ∈ members, typedSignature member = sig) :
    (∀ member ∈ members, Executes (buildUmbrella (sig.map Prod.fst) members) member) ↔
      ∀ member ∈ members, ∀ field ∈ member, field.canonicalFieldId.isSome →
        field.isArray = false := by
  apply forall₂_congr
  intro member hmember
  have hcontributor := contributed_of_typedSignature hmember (hsig member hmember)
  rw [executes_iff_allotment hcontributor]
  constructor
  · rintro ⟨owner, hallot⟩ field hfield hsome
    rcases Option.isSome_iff_exists.mp hsome with ⟨id, hid⟩
    exact hplain.isArray_of_allotment hmember (hsig member hmember) hallot hfield hid
  · exact hplain.exists_allotment hmember (hsig member hmember)

/-! ## A group with an array -/

/-- One annotated field at the top of a document. -/
def topField (key : String) (ty : ScalarType) (isArray : Bool) (canonicalFieldId : String) :
    AnnotatedField where
  path := Umbrella.key key
  ty := ty
  unit := none
  isArray := isArray
  canonicalFieldId := some canonicalFieldId

def scalarCohort : List (List AnnotatedField) :=
  [[topField "temp" .decimal false "cfid_temperature"],
    [topField "t_air" .decimal false "cfid_temperature"]]

def arrayCohort : List (List AnnotatedField) :=
  [[topField "tags" .string true "cfid_tags"], [topField "labels" .string true "cfid_tags"]]

theorem alignment_executes_iff_scalar :
    (∀ member ∈ scalarCohort, Executes
        (buildUmbrella ([("cfid_temperature", "Decimal")].map Prod.fst) scalarCohort) member) ↔
      ∀ member ∈ scalarCohort, ∃ owner,
        Allotment ([("cfid_temperature", "Decimal")].map Prod.fst) scalarCohort member owner :=
  alignment_executes_iff (by decide +kernel)

/-- Members with one array field each have one signature and no units, and no transform of theirs is
verified. -/
theorem alignment_fails_array :
    (∀ member ∈ arrayCohort, typedSignature member = [("cfid_tags", "array<String>")]) ∧
      (∀ member ∈ arrayCohort, member.map (·.unit) = [none]) ∧
        ∀ member ∈ arrayCohort, ¬ Executes
          (buildUmbrella ([("cfid_tags", "array<String>")].map Prod.fst) arrayCohort) member := by
  have hissues : ∀ member ∈ arrayCohort, verifyStatic
      (anchorTransform (buildUmbrella ["cfid_tags"] arrayCohort) member).toChildTransform
      (goldSchema (buildUmbrella ["cfid_tags"] arrayCohort)) (member.map (·.toChildField)) =
        [.typeMismatch "$.tags" .string .string] := by
    decide +kernel
  refine ⟨by decide +kernel, by decide +kernel, fun member hmember hexecutes ↦ ?_⟩
  have hverified := hexecutes.verified
  rw [List.map_singleton, hissues member hmember] at hverified
  cases hverified

end Cohort

end Deblob.Umbrella
