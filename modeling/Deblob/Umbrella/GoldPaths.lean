import Deblob.Lib.Segments
import Deblob.Umbrella.Executable
import Deblob.Umbrella.RequiredSources

/-!
# Gold paths that stay apart

A gold field is written at the path that its canonical id names behind the prefix, where dots
separate the keys, or at a path named after its position. Different ids can name the same path, or
one below another. The fields of a contract can be written in any order, and each is read back,
exactly if no two of these names clash.
-/

namespace Deblob.Umbrella

open Core Lib

/-! ## Writing the fields of a contract -/

/-- Write values one after the other with `path::set`. -/
def setAll (out : Value) (entries : List (GoldField × Value)) : Except PathSetError Value :=
  entries.foldlM (fun out entry ↦ out.set entry.1.path entry.2) out

/-- Whatever the values and the order, every write succeeds and every value is read back. -/
def WrittenInAnyOrder (fields : List GoldField) : Prop :=
  ∀ entries : List (GoldField × Value), (entries.map Prod.fst).Perm fields →
    ∃ gold, setAll (.object []) entries = .ok gold ∧
      ∀ entry ∈ entries, gold.get entry.1.path = some entry.2

/-- The paths are pairwise distinct and none is a prefix of another. -/
def PathsApart (fields : List GoldField) : Prop :=
  fields.Pairwise fun left right ↦ left.path.Separate right.path

/-- The binding that writes a value whatever the event is. -/
def writeBinding (entry : GoldField × Value) : Binding where
  target := entry.1.path
  source := entry.1.path
  ops := [.default entry.2 false]
  onMissing := .useDefault

/-- One text continues the other after a dot, or they are the same. -/
def TextsClash (left right : List Char) : Prop :=
  left = right ∨ left ++ ['.'] <+: right ∨ right ++ ['.'] <+: left

instance (left right : List Char) : Decidable (TextsClash left right) :=
  inferInstanceAs (Decidable (_ ∨ _ ∨ _))

/-- The text that a gold path is made from: the key of its id, or its position. -/
def pathText (canonicalFieldId : String) (index : ℕ) : List Char :=
  if IsPathKey (goldKey canonicalFieldId) then (goldKey canonicalFieldId).toList
  else ("f" ++ toString index).toList

/-- No two ids of a contract name the same text or one below another. -/
def TextsApart (cfids : List String) : Prop :=
  cfids.zipIdx.Pairwise fun left right ↦
    ¬ TextsClash (pathText left.1 left.2) (pathText right.1 right.2)

instance (cfids : List String) : Decidable (TextsApart cfids) :=
  inferInstanceAs (Decidable (List.Pairwise _ _))

/-! ## Paths that are apart can be written -/

section

variable {fields : List GoldField} {entry : GoldField × Value}

theorem contribution_writeBinding (entry : GoldField × Value) :
    contribution .null (writeBinding entry) = .ok (some entry.2) := by
  have hget : Value.get .null entry.1.path = none := by
    rcases List.exists_cons_of_ne_nil entry.1.path.nonempty with ⟨segment, rest, hsegments⟩
    rw [Value.get, hsegments, Value.getAt]
    simp
  simp only [contribution, writeBinding, hget, defaultValue, List.findSome?_cons]

theorem setAll_eq (entries : List (GoldField × Value)) (out : Value) :
    (setAll out entries).mapError ExecError.set =
      (entries.map writeBinding).foldlM (applyBinding .null) out := by
  induction entries generalizing out with
  | nil => rfl
  | cons entry entries ih =>
      rw [setAll, List.map_cons, List.foldlM_cons, List.foldlM_cons, applyBinding_eq,
        contribution_writeBinding]
      show _ = (out.set entry.1.path entry.2).mapError ExecError.set >>= _
      cases hset : out.set entry.1.path entry.2 with
      | error error => rfl
      | ok written => exact ih written

/-- What is written at separate paths is all there in the end. -/
theorem writtenInAnyOrder_of_apart (hapart : PathsApart fields) : WrittenInAnyOrder fields := by
  intro entries hperm
  have hseparate : (entries.map Prod.fst).Pairwise fun left right ↦
      left.path.Separate right.path :=
    hperm.symm.pairwise hapart JsonPath.Separate.symm
  have htargets : ([] ++ entries.map writeBinding).Pairwise fun (left right : Binding) ↦
      left.target.Separate right.target := by
    rw [List.pairwise_map] at hseparate
    rw [List.nil_append, List.pairwise_map]
    exact hseparate
  rcases (Written.start .null).run htargets with
    ⟨gold, hrun, hwritten⟩ | ⟨error, -, binding, hbinding, herror⟩
  · rw [← setAll_eq] at hrun
    refine ⟨gold, ?_, fun entry hentry ↦ ?_⟩
    · cases hset : setAll (.object []) entries with
      | error error => simp [hset, Except.mapError] at hrun
      | ok written =>
          simp only [hset, Except.mapError, Except.ok.injEq] at hrun
          rw [hrun]
    · exact hwritten.stored _ (List.mem_map_of_mem hentry) _ (contribution_writeBinding entry)
  · rcases List.mem_map.mp hbinding with ⟨entry, -, rfl⟩
    rw [contribution_writeBinding] at herror
    cases herror

/-! ## Paths that clash cannot -/

/-- Nothing is read below a value that is no object. -/
theorem prefix_eq_of_get {gold : Value} {upper lower : JsonPath} {flag : Bool} {value : Value}
    (hupper : gold.get upper = some (.bool flag)) (hlower : gold.get lower = some value)
    (hbelow : upper.segments <+: lower.segments) : value = .bool flag := by
  rcases hbelow with ⟨rest, hsegments⟩
  rw [Value.get, ← hsegments, Value.getAt_append] at hlower
  rw [Value.get] at hupper
  rw [hupper, Option.bind_some] at hlower
  cases rest with
  | nil => exact (Option.some.inj ((Value.getAt_nil _).symm.trans hlower)).symm
  | cons segment rest => cases hlower

theorem apart_of_writtenInAnyOrder (hwritten : WrittenInAnyOrder fields) : PathsApart fields := by
  refine List.pairwise_iff_forall_sublist.mpr fun {left right} hsublist ↦ ?_
  rcases hsublist.exists_perm_append with ⟨rest, hperm⟩
  -- the two fields get different values
  have hentries : (((left, .bool true) :: (right, .bool false) :: rest.map fun field ↦
      (field, .null) : List (GoldField × Value)).map Prod.fst).Perm fields := by
    simpa [Function.comp_def] using hperm.symm
  rcases hwritten _ hentries with ⟨gold, -, hread⟩
  have hleft := hread (left, .bool true) (by simp)
  have hright := hread (right, .bool false) (by simp)
  constructor
  · intro hbelow
    cases prefix_eq_of_get hleft hright hbelow
  · intro hbelow
    cases prefix_eq_of_get hright hleft hbelow

theorem writtenInAnyOrder_iff : WrittenInAnyOrder fields ↔ PathsApart fields :=
  ⟨apart_of_writtenInAnyOrder, writtenInAnyOrder_of_apart⟩

end

/-! ## The paths of ids -/

theorem segments_goldPath (canonicalFieldId : String) (index : ℕ) :
    (goldPath index canonicalFieldId).segments =
      ((pathText canonicalFieldId index).splitOn '.').map String.ofList := by
  unfold goldPath pathText
  rw [JsonPath.parse_append]
  split_ifs
  · rfl
  · rw [List.splitOn_eq_singleton (dot_notMem_position index), List.map_singleton,
      String.ofList_toList, positionPath]

theorem prefix_segments_iff {left right : String × ℕ} :
    (goldPath left.2 left.1).segments <+: (goldPath right.2 right.1).segments ↔
      pathText left.1 left.2 = pathText right.1 right.2 ∨
        pathText left.1 left.2 ++ ['.'] <+: pathText right.1 right.2 := by
  have hofList : Function.Injective String.ofList := fun left right heq ↦ by
    simpa using congrArg String.toList heq
  rw [segments_goldPath, segments_goldPath, List.prefix_map_iff_of_injective hofList,
    splitOn_prefix_iff]

theorem separate_iff {left right : String × ℕ} :
    (goldPath left.2 left.1).Separate (goldPath right.2 right.1) ↔
      ¬ TextsClash (pathText left.1 left.2) (pathText right.1 right.2) := by
  rw [JsonPath.Separate, prefix_segments_iff, prefix_segments_iff, TextsClash]
  constructor
  · rintro ⟨hright, hleft⟩ (heq | hbelow | habove)
    · exact hright (.inl heq)
    · exact hright (.inr hbelow)
    · exact hleft (.inr habove)
  · intro hclash
    constructor
    · rintro (heq | hbelow)
      · exact hclash (.inl heq)
      · exact hclash (.inr (.inl hbelow))
    · rintro (heq | habove)
      · exact hclash (.inl heq.symm)
      · exact hclash (.inr (.inr habove))

theorem pathsApart_buildUmbrella (cfids : List String) (members : List (List AnnotatedField)) :
    PathsApart (buildUmbrella cfids members) ↔ TextsApart cfids := by
  rw [PathsApart, buildUmbrella, List.pairwise_map, TextsApart]
  simp only [goldField_path, separate_iff]

/-- The gold paths stay apart, and the contract can be written, exactly if the names do. -/
theorem goldPaths_apart_iff (cfids : List String) (members : List (List AnnotatedField)) :
    (PathsApart (buildUmbrella cfids members) ↔ TextsApart cfids) ∧
      (WrittenInAnyOrder (buildUmbrella cfids members) ↔ TextsApart cfids) :=
  ⟨pathsApart_buildUmbrella cfids members,
    writtenInAnyOrder_iff.trans (pathsApart_buildUmbrella cfids members)⟩

/-- A member schema with one number for each id. -/
def memberNaming (cfids : List String) : List AnnotatedField :=
  cfids.zipIdx.map fun (id, index) ↦ ⟨⟨positionPath index, .decimal, none, false⟩, some id⟩

/-- The contract of two members that have a number for each of the ids. -/
def pairUmbrella (cfids : List String) : List GoldField :=
  buildUmbrella cfids [memberNaming cfids, memberNaming cfids]

/-- A field named below another, and two that differ only in the prefix. -/
theorem goldPaths_clash :
    (["cfid_main", "cfid_main.temp"].Nodup ∧
      ¬ PathsApart (pairUmbrella ["cfid_main", "cfid_main.temp"]) ∧
      ¬ WrittenInAnyOrder (pairUmbrella ["cfid_main", "cfid_main.temp"])) ∧
    (["cfid_temp", "cfid.temp"].Nodup ∧
      ¬ PathsApart (pairUmbrella ["cfid_temp", "cfid.temp"]) ∧
      ¬ WrittenInAnyOrder (pairUmbrella ["cfid_temp", "cfid.temp"])) := by
  simp only [writtenInAnyOrder_iff, pairUmbrella, pathsApart_buildUmbrella]
  decide

end Deblob.Umbrella
