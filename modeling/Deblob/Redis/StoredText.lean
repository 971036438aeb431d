import Deblob.Core.NumberText
import Deblob.Monoid.Laws
import Deblob.Redis.Evidence
import Deblob.Slm.FieldNames
import Deblob.Umbrella.Types

/-!
# The text of a candidate

A candidate is kept as one JSON text with its profile in it, and read back through a JSON value. The
JSON library is a parameter; it writes any nesting and refuses to read what is nested too deep. A
sorted profile is read back from the value of its text. Counters are natural numbers here, and an
identifier that is read must be well-formed.
-/

namespace Deblob.Redis

open Core Lib
open Deblob.Monoid (FieldNode NumericBuckets Profile TypeCounts)
open Slm (jsonStringLiteral)
open Umbrella (Value)

/-! ## Texts -/

/-- A compact JSON text whose numbers are integers. -/
inductive StoredText where
  | null
  | bool (value : Bool)
  | number (value : ℤ)
  | string (text : String)
  | object (members : List (String × StoredText))

def integerText (value : ℤ) : String :=
  if value < 0 then "-" ++ toString value.natAbs else toString value.natAbs

mutual

def StoredText.write : StoredText → String
  | .null => "null"
  | .bool value => if value then "true" else "false"
  | .number value => integerText value
  | .string text => jsonStringLiteral text
  | .object members => "\x7b" ++ writeStored true members ++ "\x7d"

def writeStored (isFirst : Bool) : List (String × StoredText) → String
  | [] => ""
  | (key, value) :: members =>
    (if isFirst then "" else ",") ++ jsonStringLiteral key ++ ":" ++ value.write ++
      writeStored false members

end

mutual

/-- The value that is read: of two members with one key the later one stays. -/
def StoredText.value : StoredText → Value
  | .null => .null
  | .bool value => .bool value
  | .number value => .number (.literal (integerText value))
  | .string text => .string text
  | .object members => .object (collectMap (storedValues members))

def storedValues : List (String × StoredText) → List (String × Value)
  | [] => []
  | (key, value) :: members => (key, value.value) :: storedValues members

end

mutual

/-- How many objects are inside each other. -/
def StoredText.nesting : StoredText → ℕ
  | .object members => storedNesting members + 1
  | _ => 0

def storedNesting : List (String × StoredText) → ℕ
  | [] => 0
  | (_, value) :: members => max value.nesting (storedNesting members)

end

/-- `from_str` reads the text back if it is nested less than the limit, and refuses it otherwise. -/
def ReadsStored (fromStr : Bytes → Except String Value) (limit : ℕ) (text : StoredText) : Prop :=
  if text.nesting < limit then fromStr (utf8 text.write) = .ok text.value
  else ∃ message, fromStr (utf8 text.write) = .error message

theorem storedValues_eq (members : List (String × StoredText)) :
    storedValues members = members.map fun member ↦ (member.1, member.2.value) := by
  induction members with
  | nil => rfl
  | cons member members ih => rw [storedValues, ih, List.map_cons]

/-- The members of a text with sorted keys keep their places. -/
theorem value_object {members : List (String × StoredText)}
    (hsorted : (members.map Prod.fst).Pairwise (· < ·)) :
    (StoredText.object members).value =
      .object (members.map fun member ↦ (member.1, member.2.value)) := by
  have hkeys : SortedKeys (members.map fun member ↦ (member.1, member.2.value)) :=
    List.pairwise_map.mpr (List.pairwise_map.mp hsorted)
  rw [StoredText.value, storedValues_eq, hkeys.collectMap_eq]

theorem storedNesting_le {members : List (String × StoredText)} {bound : ℕ} :
    storedNesting members ≤ bound ↔ ∀ member ∈ members, member.2.nesting ≤ bound := by
  induction members with
  | nil => simp [storedNesting]
  | cons member members ih => rw [storedNesting, max_le_iff, List.forall_mem_cons, ih]

/-! ## Writing a profile -/

def storedTypes (types : TypeCounts) : StoredText :=
  .object [("array", .number types.array), ("bool", .number types.bool),
    ("null", .number types.null), ("number", .number types.number),
    ("object", .number types.object), ("string", .number types.string)]

def storedBuckets (buckets : NumericBuckets) : StoredText :=
  .object [("large_positive", .bool buckets.largePositive),
    ("medium_positive", .bool buckets.mediumPositive), ("negative", .bool buckets.negative),
    ("small_positive", .bool buckets.smallPositive), ("zero", .bool buckets.zero)]

mutual

/-- The keys are sorted, since a profile is stored by way of a JSON value. -/
def storedField : FieldNode → StoredText
  | ⟨present, explicitNull, types, children, arrayElem, arrayEmptySeen, arrayPartialSeen, intOnly,
      negZeroSeen, numericBuckets⟩ =>
    .object [("array_elem", storedElem arrayElem), ("array_empty_seen", .bool arrayEmptySeen),
      ("array_partial_seen", .bool arrayPartialSeen),
      ("children", .object (storedChildren children)), ("explicit_null", .number explicitNull),
      ("int_only", .bool intOnly), ("neg_zero_seen", .bool negZeroSeen),
      ("numeric_buckets", storedBuckets numericBuckets), ("present", .number present),
      ("types", storedTypes types)]

def storedChildren : List (String × FieldNode) → List (String × StoredText)
  | [] => []
  | (key, child) :: children => (key, storedField child) :: storedChildren children

def storedElem : Option FieldNode → StoredText
  | none => .null
  | some elem => storedField elem

end

def storedProfile (profile : Profile) : StoredText :=
  .object [("count", .number profile.count), ("root", storedField profile.root)]

def candidateStateStr : CandidateState → String
  | .provisional => "provisional"
  | .staged => "staged"
  | .rejected => "rejected"

def storedRecord (record : CandidateRecord Profile) : StoredText :=
  .object [("candidate_id", .string record.candidateId.asStr),
    ("profile", storedProfile record.profile), ("sample_count", .number record.sampleCount),
    ("first_seen_ms", .number record.firstSeenMs), ("last_seen_ms", .number record.lastSeenMs),
    ("state", .string (candidateStateStr record.state)),
    ("source", record.source.elim .null .string)]

/-! ## Reading a profile -/

def integerAt (entries : List (String × Value)) (key : String) : Option ℤ :=
  match getEntry entries key with
  | some (.number (.literal text)) => signedValue text.toList
  | _ => none

def countAt (entries : List (String × Value)) (key : String) : Option ℕ :=
  (integerAt entries key).bind fun value ↦ if 0 ≤ value then some value.toNat else none

def flagAt (entries : List (String × Value)) (key : String) : Option Bool :=
  match getEntry entries key with
  | some (.bool value) => some value
  | _ => none

def textAt (entries : List (String × Value)) (key : String) : Option String :=
  match getEntry entries key with
  | some (.string text) => some text
  | _ => none

def typesFromValue : Value → Option TypeCounts
  | .object entries => do
    let null ← countAt entries "null"
    let bool ← countAt entries "bool"
    let number ← countAt entries "number"
    let string ← countAt entries "string"
    let array ← countAt entries "array"
    let object ← countAt entries "object"
    return ⟨null, bool, number, string, array, object⟩
  | _ => none

def bucketsFromValue : Value → Option NumericBuckets
  | .object entries => do
    let zero ← flagAt entries "zero"
    let smallPositive ← flagAt entries "small_positive"
    let mediumPositive ← flagAt entries "medium_positive"
    let largePositive ← flagAt entries "large_positive"
    let negative ← flagAt entries "negative"
    return ⟨zero, smallPositive, mediumPositive, largePositive, negative⟩
  | _ => none

def isNull : Value → Bool
  | .null => true
  | _ => false

mutual

/-- Buckets that are missing are the default, and so is an element. -/
def fieldFromValue : Value → Option FieldNode
  | .object entries => do
    let present ← countAt entries "present"
    let explicitNull ← countAt entries "explicit_null"
    let types ← (getEntry entries "types").bind typesFromValue
    let children ← childrenFrom entries
    let arrayElem ← elemFrom entries
    let arrayEmptySeen ← flagAt entries "array_empty_seen"
    let arrayPartialSeen ← flagAt entries "array_partial_seen"
    let intOnly ← flagAt entries "int_only"
    let negZeroSeen ← flagAt entries "neg_zero_seen"
    let numericBuckets ←
      (getEntry entries "numeric_buckets").elim (some .none) bucketsFromValue
    return ⟨present, explicitNull, types, children, arrayElem, arrayEmptySeen, arrayPartialSeen,
      intOnly, negZeroSeen, numericBuckets⟩
  | _ => none

/-- The members of the object under `children`. -/
def childrenFrom : List (String × Value) → Option (List (String × FieldNode))
  | [] => none
  | (name, value) :: entries =>
    if name = "children" then
      match value with
      | .object members => (membersFrom members).map collectMap
      | _ => none
    else childrenFrom entries

def membersFrom : List (String × Value) → Option (List (String × FieldNode))
  | [] => some []
  | (key, value) :: members => do
    let child ← fieldFromValue value
    let rest ← membersFrom members
    return (key, child) :: rest

/-- The field under `array_elem`, which may be missing or null. -/
def elemFrom : List (String × Value) → Option (Option FieldNode)
  | [] => some none
  | (name, value) :: entries =>
    if name = "array_elem" then
      if isNull value then some none else (fieldFromValue value).map some
    else elemFrom entries

end

def profileFromValue : Value → Option Profile
  | .object entries => do
    let count ← countAt entries "count"
    let root ← (getEntry entries "root").bind fieldFromValue
    return ⟨count, root⟩
  | _ => none

def candidateStateFromStr (text : String) : Option CandidateState :=
  if text = "provisional" then some .provisional
  else if text = "staged" then some .staged
  else if text = "rejected" then some .rejected
  else none

/-- The profile of a record stays a value until it is merged. -/
def recordFromValue : Value → Option (CandidateRecord Value)
  | .object entries => do
    let candidateId ← (textAt entries "candidate_id").bind DigestId.parse
    let profile ← getEntry entries "profile"
    let sampleCount ← countAt entries "sample_count"
    let firstSeenMs ← integerAt entries "first_seen_ms"
    let lastSeenMs ← integerAt entries "last_seen_ms"
    let state ← (textAt entries "state").bind candidateStateFromStr
    let source ← match getEntry entries "source" with
      | none | some .null => some none
      | some (.string source) => some (some source)
      | some _ => none
    return ⟨candidateId, profile, sampleCount, firstSeenMs, lastSeenMs, state, source⟩
  | _ => none

inductive StoredError where
  | corruptRecord
  | corruptProfile
  | panicked
deriving DecidableEq

/-- `value["state"] = state`, which only an object or null can take. -/
def withState (state : String) : Value → Option Value
  | .object entries => some (.object (insertWith "state" (.string state)
      (fun _ ↦ .string state) entries))
  | .null => some (.object [("state", .string state)])
  | _ => none

/-- The state of the hash overrides the one in the record. -/
def candidateFromHash (fromStr : Bytes → Except String Value) (recordJson : Bytes)
    (state : Option String) : Except StoredError (CandidateRecord Value) := do
  let value ← (fromStr recordJson).mapError fun _ ↦ .corruptRecord
  let value ← match state with
    | none => .ok value
    | some state => (withState state value).elim (.error .panicked) .ok
  (recordFromValue value).elim (.error .corruptRecord) .ok

/-! ## Reading back -/

theorem digitsValue_toDigits (number : ℕ) : digitsValue (Nat.toDigits 10 number) = number := by
  have hfold : digitsValue (Nat.toDigits 10 number) =
      Nat.ofDigitChars 10 (Nat.toDigits 10 number) 0 := by
    rw [digitsValue, Nat.ofDigitChars_eq_foldl]
    simp only [Nat.mul_comm]
  rw [hfold, Nat.ofDigitChars_ten_toDigits]

theorem signedValue_integerText (value : ℤ) :
    signedValue (integerText value).toList = some value := by
  have hdigits : ∀ digit ∈ Nat.toDigits 10 value.natAbs, digit.isDigit := fun digit hdigit ↦
    Nat.isDigit_of_mem_toDigits (b := 10) (by decide) (by decide) hdigit
  have hnonempty : Nat.toDigits 10 value.natAbs ≠ [] := Nat.toDigits_ne_nil
  have hread : Nat.toDigits 10 value.natAbs ≠ [] ∧
      (Nat.toDigits 10 value.natAbs).all Char.isDigit :=
    ⟨hnonempty, List.all_eq_true.mpr hdigits⟩
  have htext : (toString value.natAbs).toList = Nat.toDigits 10 value.natAbs := by
    rw [Nat.toString_eq_repr, Nat.toList_repr]
  unfold integerText
  split_ifs with hnegative
  · have hminus : ("-" ++ toString value.natAbs).toList =
        '-' :: Nat.toDigits 10 value.natAbs := by
      rw [String.toList_append, htext]
      rfl
    rw [hminus, signedValue, if_pos hread, digitsValue_toDigits]
    congr 1
    omega
  · rw [htext]
    unfold signedValue
    split
    · rename_i heq
      rw [heq] at hdigits
      exact absurd (hdigits '-' List.mem_cons_self) (by decide)
    · rename_i heq
      rw [heq] at hdigits
      exact absurd (hdigits '+' List.mem_cons_self) (by decide)
    · rw [if_pos hread, digitsValue_toDigits]
      congr 1
      omega

theorem integerAt_number {entries : List (String × Value)} {key : String} {value : ℤ}
    (hentry : getEntry entries key = some (.number (.literal (integerText value)))) :
    integerAt entries key = some value := by
  rw [integerAt, hentry]
  exact signedValue_integerText value

theorem countAt_number {entries : List (String × Value)} {key : String} {count : ℕ}
    (hentry : getEntry entries key = some (.number (.literal (integerText count)))) :
    countAt entries key = some count := by
  rw [countAt, integerAt_number hentry, Option.bind_some, if_pos (Int.natCast_nonneg count),
    Int.toNat_natCast]

theorem value_storedTypes (types : TypeCounts) :
    typesFromValue (storedTypes types).value = some types := by
  have hsorted : ["array", "bool", "null", "number", "object", "string"].Pairwise (· < ·) := by
    decide
  rw [storedTypes, value_object (by exact hsorted)]
  unfold typesFromValue
  simp only [List.map_cons, List.map_nil, StoredText.value]
  rw [countAt_number rfl, countAt_number rfl, countAt_number rfl, countAt_number rfl,
    countAt_number rfl, countAt_number rfl]
  rfl

theorem value_storedBuckets (buckets : NumericBuckets) :
    bucketsFromValue (storedBuckets buckets).value = some buckets := by
  have hsorted : ["large_positive", "medium_positive", "negative", "small_positive",
      "zero"].Pairwise (· < ·) := by
    decide
  rw [storedBuckets, value_object (by exact hsorted)]
  rfl

theorem storedChildren_eq (children : List (String × FieldNode)) :
    storedChildren children = children.map fun child ↦ (child.1, storedField child.2) := by
  induction children with
  | nil => rfl
  | cons child children ih => rw [storedChildren, ih, List.map_cons]

/-- The members of a stored field, read as values. -/
def fieldEntries (field : FieldNode) : List (String × Value) :=
  [("array_elem", (storedElem field.arrayElem).value),
    ("array_empty_seen", .bool field.arrayEmptySeen),
    ("array_partial_seen", .bool field.arrayPartialSeen),
    ("children", (StoredText.object (storedChildren field.children)).value),
    ("explicit_null", .number (.literal (integerText field.explicitNull))),
    ("int_only", .bool field.intOnly), ("neg_zero_seen", .bool field.negZeroSeen),
    ("numeric_buckets", (storedBuckets field.numericBuckets).value),
    ("present", .number (.literal (integerText field.present))),
    ("types", (storedTypes field.types).value)]

theorem value_storedField (field : FieldNode) :
    (storedField field).value = .object (fieldEntries field) := by
  have hsorted : ["array_elem", "array_empty_seen", "array_partial_seen", "children",
      "explicit_null", "int_only", "neg_zero_seen", "numeric_buckets", "present",
      "types"].Pairwise (· < ·) := by
    decide
  cases field
  rw [storedField, value_object (by exact hsorted)]
  simp only [List.map_cons, List.map_nil, StoredText.value, fieldEntries]

theorem value_storedChildren {children : List (String × FieldNode)} (hkeys : SortedKeys children) :
    (StoredText.object (storedChildren children)).value =
      .object (children.map fun child ↦ (child.1, (storedField child.2).value)) := by
  have hsorted : ((storedChildren children).map Prod.fst).Pairwise (· < ·) := by
    rw [storedChildren_eq, List.map_map]
    exact List.pairwise_map.mpr hkeys
  rw [value_object hsorted, storedChildren_eq, List.map_map]
  rfl

theorem membersFrom_children {children : List (String × FieldNode)}
    (hread : ∀ child ∈ children, fieldFromValue (storedField child.2).value = some child.2) :
    membersFrom (children.map fun child ↦ (child.1, (storedField child.2).value)) =
      some children := by
  induction children with
  | nil => rfl
  | cons child children ih =>
      rw [List.forall_mem_cons] at hread
      rw [List.map_cons, membersFrom, hread.1, ih hread.2]
      rfl

theorem isNull_storedField (field : FieldNode) : isNull (storedField field).value = false := by
  rw [value_storedField]
  rfl

theorem childrenFrom_fieldEntries {field : FieldNode} (hkeys : SortedKeys field.children)
    (hread : ∀ child ∈ field.children, fieldFromValue (storedField child.2).value = some child.2) :
    childrenFrom (fieldEntries field) = some field.children := by
  have hentries : childrenFrom (fieldEntries field) =
      childrenFrom [("children", (StoredText.object (storedChildren field.children)).value)] := rfl
  rw [hentries, value_storedChildren hkeys, childrenFrom, if_pos rfl]
  rw [membersFrom_children hread, Option.map_some, hkeys.collectMap_eq]

theorem elemFrom_fieldEntries {field : FieldNode}
    (hread : ∀ elem ∈ field.arrayElem, fieldFromValue (storedField elem).value = some elem) :
    elemFrom (fieldEntries field) = some field.arrayElem := by
  rw [fieldEntries, elemFrom, if_pos rfl]
  cases helem : field.arrayElem with
  | none => rfl
  | some elem =>
      rw [storedElem, isNull_storedField, hread elem helem]
      rfl

/-- A sorted field is read back from its text. -/
theorem fieldFromValue_storedField {field : FieldNode} (hsorted : field.Sorted) :
    fieldFromValue (storedField field).value = some field := by
  induction hsorted with
  | @intro field keys _ _ ihChildren ihElem =>
      have hpresent : countAt (fieldEntries field) "present" = some field.present :=
        countAt_number rfl
      have hnull : countAt (fieldEntries field) "explicit_null" = some field.explicitNull :=
        countAt_number rfl
      have htypes : (getEntry (fieldEntries field) "types").bind typesFromValue =
          some field.types := value_storedTypes field.types
      have hchildren := childrenFrom_fieldEntries keys fun child hchild ↦
        ihChildren child.1 child.2 (keys.mem_iff.mp hchild)
      have helem := elemFrom_fieldEntries ihElem
      have hbuckets : (getEntry (fieldEntries field) "numeric_buckets").elim (some .none)
          bucketsFromValue = some field.numericBuckets :=
        value_storedBuckets field.numericBuckets
      have hempty : flagAt (fieldEntries field) "array_empty_seen" =
          some field.arrayEmptySeen := rfl
      have hpartial : flagAt (fieldEntries field) "array_partial_seen" =
          some field.arrayPartialSeen := rfl
      have hint : flagAt (fieldEntries field) "int_only" = some field.intOnly := rfl
      have hzero : flagAt (fieldEntries field) "neg_zero_seen" = some field.negZeroSeen := rfl
      rw [value_storedField, fieldFromValue, hpresent, hnull, htypes, hchildren, helem, hbuckets,
        hempty, hpartial, hint, hzero]
      cases field
      rfl

theorem profileFromValue_storedProfile {profile : Profile} (hsorted : profile.root.Sorted) :
    profileFromValue (storedProfile profile).value = some profile := by
  have hkeys : ["count", "root"].Pairwise (· < ·) := by decide
  have hroot := fieldFromValue_storedField hsorted
  rw [storedProfile, value_object (by exact hkeys)]
  simp only [List.map_cons, List.map_nil, StoredText.value]
  rw [profileFromValue, countAt_number rfl]
  change (some profile.count >>= fun count ↦
    (some (storedField profile.root).value).bind fieldFromValue >>= fun root ↦
      pure (⟨count, root⟩ : Profile)) = _
  rw [Option.bind_some, hroot]
  rfl

theorem candidateStateFromStr_candidateStateStr (state : CandidateState) :
    candidateStateFromStr (candidateStateStr state) = some state := by
  cases state <;> decide

/-- The members of a stored record, read as values. -/
def recordEntries (record : CandidateRecord Profile) : List (String × Value) :=
  [("candidate_id", .string record.candidateId.asStr),
    ("first_seen_ms", .number (.literal (integerText record.firstSeenMs))),
    ("last_seen_ms", .number (.literal (integerText record.lastSeenMs))),
    ("profile", (storedProfile record.profile).value),
    ("sample_count", .number (.literal (integerText record.sampleCount))),
    ("source", record.source.elim .null .string),
    ("state", .string (candidateStateStr record.state))]

theorem value_storedRecord (record : CandidateRecord Profile) :
    (storedRecord record).value = .object (recordEntries record) := by
  have hmembers : (storedRecord record).value = .object (collectMap
      [("candidate_id", .string record.candidateId.asStr),
        ("profile", (storedProfile record.profile).value),
        ("sample_count", .number (.literal (integerText record.sampleCount))),
        ("first_seen_ms", .number (.literal (integerText record.firstSeenMs))),
        ("last_seen_ms", .number (.literal (integerText record.lastSeenMs))),
        ("state", .string (candidateStateStr record.state)),
        ("source", record.source.elim .null .string)]) := by
    cases hsource : record.source
    · rw [storedRecord, hsource]
      rfl
    · rw [storedRecord, hsource]
      rfl
  rw [hmembers, recordEntries]
  simp (disch := decide) only [collectMap, List.foldl_cons, List.foldl_nil, insertWith, if_pos,
    if_neg]

theorem withState_storedRecord (record : CandidateRecord Profile) :
    withState (candidateStateStr record.state) (storedRecord record).value =
      some (storedRecord record).value := by
  rw [value_storedRecord]
  rfl

theorem recordFromValue_storedRecord (record : CandidateRecord Profile) :
    recordFromValue (storedRecord record).value =
      some { record with profile := (storedProfile record.profile).value } := by
  have hcount : countAt (recordEntries record) "sample_count" = some record.sampleCount :=
    countAt_number rfl
  have hfirst : integerAt (recordEntries record) "first_seen_ms" = some record.firstSeenMs :=
    integerAt_number rfl
  have hlast : integerAt (recordEntries record) "last_seen_ms" = some record.lastSeenMs :=
    integerAt_number rfl
  have hid : (textAt (recordEntries record) "candidate_id").bind DigestId.parse =
      some record.candidateId := DigestId.parse_asStr record.candidateId
  have hstate : (textAt (recordEntries record) "state").bind candidateStateFromStr =
      some record.state :=
    candidateStateFromStr_candidateStateStr record.state
  rw [value_storedRecord, recordFromValue, hcount, hfirst, hlast, hid, hstate]
  cases hsource : record.source
  · rw [recordEntries, hsource]
    rfl
  · rw [recordEntries, hsource]
    rfl

theorem candidateFromHash_eq_ok {fromStr : Bytes → Except String Value} {recordJson : Bytes}
    {state : String} {value stored : Value} {record : CandidateRecord Value}
    (hread : fromStr recordJson = .ok value) (hstate : withState state value = some stored)
    (hrecord : recordFromValue stored = some record) :
    candidateFromHash fromStr recordJson (some state) = .ok record := by
  unfold candidateFromHash
  rw [hread]
  change (withState state value).elim (Except.error StoredError.panicked) Except.ok >>= _ = _
  rw [hstate]
  change (recordFromValue stored).elim _ _ = _
  rw [hrecord]
  rfl

/-- A record that can be read gives its candidate, with the profile as a value. -/
theorem candidateFromHash_storedRecord {fromStr : Bytes → Except String Value}
    {record : CandidateRecord Profile}
    (hread : fromStr (utf8 (storedRecord record).write) = .ok (storedRecord record).value) :
    candidateFromHash fromStr (utf8 (storedRecord record).write)
        (some (candidateStateStr record.state)) =
      .ok { record with profile := (storedProfile record.profile).value } :=
  candidateFromHash_eq_ok hread (withState_storedRecord record)
    (recordFromValue_storedRecord record)

end Deblob.Redis
