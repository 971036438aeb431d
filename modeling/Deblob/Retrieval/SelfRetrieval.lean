import Deblob.Fingerprint.Parse
import Deblob.Monoid.Laws
import Deblob.Retrieval.Rank
import Deblob.Semantic.CanonicalTexts

/-!
# A published schema retrieves itself

The signature of a live profile is the signature that is read back from the JSON it is published
with. A profile of documents within the default depth is not nested deeper than the JSON library
reads.
-/

namespace Deblob.Retrieval

open Core Lib Fingerprint Deblob.Monoid Semantic
open Umbrella (Value)

/-- How deep arrays and objects may be inside each other before the JSON library refuses them. -/
def recursionLimit : ℕ := 128

/-! ## Reading a signature back -/

theorem parseTypes_strings {entries : List (String × Value)} {types : List String}
    (hentry : getEntry entries "types" = some (.array (types.map .string))) :
    parseTypes entries = types.toFinset := by
  unfold parseTypes
  rw [hentry]
  dsimp only
  rw [List.filterMap_map]
  congr 1
  exact List.filterMap_some

theorem parseFieldSig_entries (optional : Bool) (types : List String)
    (children : Option (List (String × Value))) (elem : Option Value) :
    parseFieldSig (.object (monoidEntries (.bool optional) (.array (types.map .string))
      (children.map .object) elem)) =
        { optional
          types := types.toFinset
          children := collectMap (parseChildren (children.getD []))
          elem := elem.map parseFieldSig } := by
  have hoptional : parseOptional (monoidEntries (.bool optional) (.array (types.map .string))
      (children.map .object) elem) = optional := by
    cases children <;> cases elem <;> rfl
  have htypes : parseTypes (monoidEntries (.bool optional) (.array (types.map .string))
      (children.map .object) elem) = types.toFinset := by
    apply parseTypes_strings
    cases children <;> cases elem <;> rfl
  rw [parseFieldSig, hoptional, htypes]
  cases children <;> cases elem <;> rfl

/-- The signature of a field is read back from its generalized JSON. -/
theorem parseFieldSig_view {field : FieldNode} (hsorted : field.Sorted) (denom : ℕ) :
    parseFieldSig (viewText (field.view denom)).value = fieldSigFromNode denom field := by
  induction hsorted generalizing denom with
  | @intro field keys _ _ ihChildren ihElem =>
      have hchildren : parseChildren (field.children.map fun child ↦
          (child.1, (viewText (child.2.view field.types.object)).value)) =
            field.children.map fun child ↦
              (child.1, fieldSigFromNode field.types.object child.2) := by
        rw [parseChildren_eq, List.map_map]
        apply List.map_congr_left
        intro child hchild
        exact congrArg (Prod.mk child.1)
          (ihChildren child.1 child.2 (keys.mem_iff.mp hchild) field.types.object)
      have helem : (field.arrayElem.map fun elem ↦
          (viewText (elem.view field.types.array)).value).map parseFieldSig =
            field.arrayElem.map (fieldSigFromNode field.types.array) := by
        cases hsome : field.arrayElem with
        | none => rfl
        | some elem => exact congrArg some (ihElem elem hsome field.types.array)
      rw [value_fieldText keys, parseFieldSig_entries, fieldSigFromNode_eq, helem, ← hchildren]
      cases field.children <;> rfl

section

variable {fromStr : Bytes → Except String Value} {tree : MergeTree Node}

/-- The signature of a profile that is not nested too deep is read from its published JSON. -/
theorem fieldSigFromCanonical_of_nesting {profile : Profile} (hsorted : profile.root.Sorted)
    (hnesting : (profileText profile).nesting < recursionLimit)
    (hreads : ReadsText fromStr recursionLimit (profileText profile)) :
    fieldSigFromCanonical fromStr profile.generalizedCanonicalJson =
      fieldSigFromNode profile.count profile.root := by
  rw [ReadsText, if_pos hnesting] at hreads
  unfold fieldSigFromCanonical
  rw [generalizedCanonicalJson_eq, hreads]
  exact parseFieldSig_view hsorted _

/-- Documents within the default depth give a profile that is not nested too deep to be read. -/
theorem nesting_profileText_lt
    (hdepth : ∀ doc ∈ tree.values, nodeDepth doc ≤ (default : Limits).maxDepth) :
    (profileText (profileOfTree tree)).nesting < recursionLimit := by
  have hprofile := @profileOf_eq_tree tree.values.toList tree (Multiset.coe_toList _).symm
  rw [← hprofile]
  have hle := nesting_viewText_le (profileOf_summarizes tree.values.toList).2
    (profileOf tree.values.toList).count (default : Limits).maxDepth fun doc hdoc ↦
      hdepth doc (Multiset.mem_toList.mp hdoc)
  exact hle.trans_lt (by decide)

/-- The signature of a live profile is the one read from its published JSON. -/
theorem fieldSigFromCanonical_eq
    (hdepth : ∀ doc ∈ tree.values, nodeDepth doc ≤ (default : Limits).maxDepth)
    (hreads : ReadsText fromStr recursionLimit (profileText (profileOfTree tree))) :
    fieldSigFromCanonical fromStr (profileOfTree tree).generalizedCanonicalJson =
      fieldSigFromNode (profileOfTree tree).count (profileOfTree tree).root := by
  have hsorted : (profileOfTree tree).root.Sorted := by
    rw [profileOfTree_eq]
    exact (tree.merged SortedProfile.fromNode).2
  exact fieldSigFromCanonical_of_nesting hsorted (nesting_profileText_lt hdepth) hreads

/-- A candidate and the schema published from it have one signature, so their distance is zero and
both rank every corpus alike. -/
theorem published_retrieves_itself (unicode : Unicode)
    (hdepth : ∀ doc ∈ tree.values, nodeDepth doc ≤ (default : Limits).maxDepth)
    (hreads : ReadsText fromStr recursionLimit (profileText (profileOfTree tree))) :
    let profile := profileOfTree tree
    let live := fieldSigFromNode profile.count profile.root
    let published := fieldSigFromCanonical fromStr profile.generalizedCanonicalJson
    live = published ∧
      (computeDistance (extractFeatures unicode live) (extractFeatures unicode published)).total =
        0 ∧
      ∀ refs k, rankCandidates unicode fromStr (extractFeatures unicode live) refs k =
        rankCandidates unicode fromStr (extractFeatures unicode published) refs k := by
  intro profile live published
  have hsame : live = published := (fieldSigFromCanonical_eq hdepth hreads).symm
  rw [← hsame]
  exact ⟨rfl, total_computeDistance_self _, fun _ _ ↦ rfl⟩

end

/-- Two documents with a member that is missing once and an element that is null once. -/
def retrievalSample : MergeTree Node :=
  .node (.leaf (.object [("a\"", .array [.object [("b", .null)], .number "1"] false)]))
    (.leaf (.object [("a\"", .array [] false), ("c", .string "x")]))

theorem published_retrieves_itself_sample :
    ∃ fromStr, fieldSigFromNode (profileOfTree retrievalSample).count
        (profileOfTree retrievalSample).root =
      fieldSigFromCanonical fromStr (profileOfTree retrievalSample).generalizedCanonicalJson := by
  have hdepth : ∀ doc ∈ retrievalSample.values, nodeDepth doc ≤ (default : Limits).maxDepth := by
    simp only [retrievalSample, MergeTree.values, Multiset.mem_add, Multiset.mem_singleton]
    rintro doc (rfl | rfl) <;> decide
  have hreads : ReadsText (readerOf [profileText (profileOfTree retrievalSample)]) recursionLimit
      (profileText (profileOfTree retrievalSample)) := by
    rw [ReadsText, if_pos (nesting_profileText_lt hdepth)]
    simp [readerOf]
  exact ⟨_, (published_retrieves_itself .ascii hdepth hreads).1⟩

end Deblob.Retrieval
