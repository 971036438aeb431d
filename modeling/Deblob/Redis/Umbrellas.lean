import Deblob.Umbrella.Store
import Deblob.Lib.KeyedSets

/-!
# Umbrellas in Redis

An umbrella is a hash of its record and its state, and its id is a member of the set of that state.
Transforms and lineage assertions are texts under keys of their own; the children of an umbrella
are a set. Records are written and read as JSON by a parameter. Reads of a set return its members
in any order, which is part of the call.
-/

namespace Deblob.Redis

open Lib
open Umbrella (UmbrellaState UmbrellaRecord StoredUmbrella TransformRecord UmbrellaBundle
  LineageAssertion StoreError StoreOp StoreAnswer)

/-! ## JSON -/

/-- `to_string` and `from_str` for one type. -/
structure Codec (α : Type) where
  encode : α → String
  decode : String → Except String α

structure Serde where
  umbrella : Codec UmbrellaRecord
  transform : Codec TransformRecord
  lineage : Codec LineageAssertion

section

variable {α : Type}

def Codec.read (codec : Codec α) (text : String) : Except StoreError α :=
  (codec.decode text).mapError fun message ↦ .backend (.json message)

/-- `GET` of a JSON text that may be absent. -/
def Codec.readOption (codec : Codec α) : Option String → Except StoreError (Option α)
  | none => .ok none
  | some text => (codec.read text).map some

/-- The value can be written and read again. -/
def Codec.ReadsBack (codec : Codec α) (value : α) : Prop :=
  codec.decode (codec.encode value) = .ok value

theorem Codec.ReadsBack.readOption_map {codec : Codec α} {value : Option α}
    (hvalue : ∀ found ∈ value, codec.ReadsBack found) :
    codec.readOption (value.map codec.encode) = .ok value := by
  cases value with
  | none => rfl
  | some found =>
      have hdecode : codec.decode (codec.encode found) = .ok found := hvalue found rfl
      rw [Option.map_some, readOption, read, hdecode]
      rfl

/-- Reads exactly the texts of some values. -/
def Codec.ofValues (encode : α → String) (values : List α) : Codec α where
  encode := encode
  decode text := match values.find? fun value ↦ encode value = text with
    | some value => .ok value
    | none => .error "not a sample"

theorem Codec.readsBack_ofValues {encode : α → String} {before after : List α}
    {value : α} (hbefore : ∀ other ∈ before, encode other ≠ encode value) :
    (Codec.ofValues encode (before ++ value :: after)).ReadsBack value := by
  have hnone : before.find? (fun other ↦ encode other = encode value) = none :=
    List.find?_eq_none.mpr fun other hother ↦
      fun heq ↦ hbefore other hother (of_decide_eq_true heq)
  have hfind : (before ++ value :: after).find? (fun other ↦ encode other = encode value) =
      some value := by
    rw [List.find?_append, hnone, Option.none_or, List.find?_cons, decide_eq_true rfl]
  unfold ReadsBack ofValues
  dsimp only
  rw [hfind]

/-- Read each of the ids and keep what is there; the first error ends the loop. -/
def collectFound (get : String → Except StoreError (Option α)) :
    List String → Except StoreError (List α)
  | [] => .ok []
  | id :: ids =>
    match get id with
    | .error error => .error error
    | .ok found => (collectFound get ids).map (found.toList ++ ·)

theorem collectFound_ok {get : String → Except StoreError (Option α)} {value : String → Option α}
    {ids : List String} (hget : ∀ id ∈ ids, get id = .ok (value id)) :
    collectFound get ids = .ok (ids.filterMap value) := by
  induction ids with
  | nil => rfl
  | cons id ids ih =>
      rcases List.forall_mem_cons.mp hget with ⟨hid, hids⟩
      rw [collectFound, hid, ih hids, List.filterMap_cons]
      cases value id <;> rfl

end

/-! ## Keys -/

def stateStr : UmbrellaState → String
  | .provisional => "provisional"
  | .active => "active"
  | .rejected => "rejected"

def parseState (text : String) : Option UmbrellaState :=
  if text = "provisional" then some .provisional
  else if text = "active" then some .active
  else if text = "rejected" then some .rejected
  else none

def allStates : List UmbrellaState := [.provisional, .active, .rejected]

def umbKey (id : String) : String := "deblob:umbrella:" ++ id

def stateIndex (state : UmbrellaState) : String := "deblob:umbrellas:" ++ stateStr state

def transformKey (umbrellaId childId : String) : String :=
  "deblob:umbrella-transform:" ++ umbrellaId ++ ":" ++ childId

def transformsIndex (umbrellaId : String) : String := "deblob:umbrella-transforms:" ++ umbrellaId

def lineageKey (umbrellaId : String) : String := "deblob:umbrella-lineage:" ++ umbrellaId

@[simp]
theorem parseState_stateStr (state : UmbrellaState) : parseState (stateStr state) = some state := by
  cases state <;> rfl

theorem stateStr_injective : Function.Injective stateStr := by
  intro left right heq
  have hparse := congrArg parseState heq
  rw [parseState_stateStr, parseState_stateStr] at hparse
  exact Option.some.inj hparse

theorem umbKey_injective : Function.Injective umbKey :=
  fun _ _ heq ↦ String.append_right_inj _ |>.mp heq

theorem transformsIndex_injective : Function.Injective transformsIndex :=
  fun _ _ heq ↦ String.append_right_inj _ |>.mp heq

theorem lineageKey_injective : Function.Injective lineageKey :=
  fun _ _ heq ↦ String.append_right_inj _ |>.mp heq

theorem stateIndex_injective : Function.Injective stateIndex :=
  fun _ _ heq ↦ stateStr_injective (String.append_right_inj _ |>.mp heq)

/-- Keys that differ at a place inside their fixed parts are different. -/
theorem key_ne {left right : String} (place : ℕ) (hleft : place < left.toList.length)
    (hright : place < right.toList.length)
    (hplace : left.toList[place]? ≠ right.toList[place]?) (rest tail : String) :
    left ++ rest ≠ right ++ tail := by
  intro heq
  have hlists := congrArg (fun text : String ↦ text.toList[place]?) heq
  simp only [String.toList_append] at hlists
  rw [List.getElem?_append_left hleft, List.getElem?_append_left hright] at hlists
  exact hplace hlists

theorem stateIndex_ne_transformsIndex (state : UmbrellaState) (umbrellaId : String) :
    stateIndex state ≠ transformsIndex umbrellaId :=
  key_ne 15 (by decide) (by decide) (by decide) _ _

theorem transformKey_ne_lineageKey (umbrellaId childId other : String) :
    transformKey umbrellaId childId ≠ lineageKey other := by
  unfold transformKey
  rw [String.append_assoc, String.append_assoc]
  exact key_ne 16 (by decide) (by decide) (by decide) _ _

/-- No two of the pairs of an umbrella and a child share a key. -/
def KeysApart (pairs : List (String × String)) : Prop :=
  ∀ left ∈ pairs, ∀ right ∈ pairs,
    transformKey left.1 left.2 = transformKey right.1 right.2 → left = right

/-- Umbrella ids without a colon keep the keys apart. -/
theorem keysApart_of_noColon {pairs : List (String × String)}
    (hcolon : ∀ pair ∈ pairs, ':' ∉ pair.1.toList) : KeysApart pairs := by
  have hbefore {umbrellaId childId : String} (hnot : ':' ∉ umbrellaId.toList) :
      (umbrellaId ++ ":" ++ childId).toList.takeWhile (· ≠ ':') = umbrellaId.toList := by
    simp only [String.toList_append]
    rw [List.append_assoc, List.takeWhile_append_of_pos]
    · exact List.append_nil _
    · intro c hc
      exact decide_eq_true fun heq ↦ hnot (heq ▸ hc)
  intro left hleft right hright heq
  unfold transformKey at heq
  rw [String.append_assoc, String.append_assoc, String.append_assoc, String.append_assoc,
    String.append_right_inj, ← String.append_assoc, ← String.append_assoc] at heq
  have humbrella : left.1 = right.1 := by
    apply String.toList_inj.mp
    rw [← hbefore (hcolon left hleft), heq, hbefore (hcolon right hright)]
  rw [humbrella] at heq
  exact Prod.ext humbrella (String.append_right_inj _ |>.mp heq)

/-! ## The store -/

structure UmbrellaHash where
  record : Option String
  state : Option String

structure RedisUmbrella where
  hashes : String → UmbrellaHash
  sets : KeyedSets String String
  strings : String → Option String

/-- `SADD` to the set of a state, `SREM` from the others. -/
def moveToState (sets : KeyedSets String String) (id : String) (state : UmbrellaState) :
    KeyedSets String String :=
  allStates.foldl (fun sets other ↦
    if other = state then sets.sadd (stateIndex other) id
    else sets.srem (stateIndex other) id) sets

/-- Afterwards the id is in the set of its state and in no other; the other ids stay. -/
theorem mem_moveToState {sets : KeyedSets String String} {id member : String}
    {state other : UmbrellaState} : member ∈ moveToState sets id state (stateIndex other) ↔
      if member = id then other = state else member ∈ sets (stateIndex other) := by
  have hindex {left right : UmbrellaState} : stateIndex left = stateIndex right ↔ left = right :=
    stateIndex_injective.eq_iff
  by_cases hmember : member = id
  · cases state <;> cases other <;> simp [moveToState, allStates, hindex, hmember]
  · cases state <;> simp [moveToState, allStates, hmember]

theorem moveToState_of_ne {sets : KeyedSets String String} {id key : String}
    {state : UmbrellaState} (hkey : ∀ other, stateIndex other ≠ key) :
    moveToState sets id state key = sets key := by
  have hne (other : UmbrellaState) : key ≠ stateIndex other := (hkey other).symm
  ext member
  cases state <;> simp [moveToState, allStates, hne]

namespace RedisUmbrella

def empty : RedisUmbrella := ⟨fun _ ↦ ⟨none, none⟩, fun _ ↦ ∅, fun _ ↦ none⟩

variable (serde : Serde) (store : RedisUmbrella)

def putUmbrella (schema : UmbrellaRecord) (state : UmbrellaState) : RedisUmbrella :=
  { store with
    hashes := Function.update store.hashes (umbKey schema.umbrellaId)
      ⟨some (serde.umbrella.encode schema), some (stateStr state)⟩
    sets := moveToState store.sets schema.umbrellaId state }

def getUmbrella (id : String) : Except StoreError (Option StoredUmbrella) :=
  let hash := store.hashes (umbKey id)
  match hash.record, hash.state with
  | some record, some text =>
    match serde.umbrella.read record with
    | .error error => .error error
    | .ok schema =>
      match parseState text with
      | some state => .ok (some ⟨schema, state⟩)
      | none => .error (.backend (.badState text))
  | _, _ => .ok none

/-- `EXISTS`: a key is there as long as it has a field. -/
def existsUmbrella (id : String) : Bool :=
  let hash := store.hashes (umbKey id)
  hash.record.isSome || hash.state.isSome

/-- The pipeline of `set_state`. -/
def writeState (id : String) (state : UmbrellaState) : RedisUmbrella :=
  { store with
    hashes := Function.update store.hashes (umbKey id)
      { store.hashes (umbKey id) with state := some (stateStr state) }
    sets := moveToState store.sets id state }

def setState (id : String) (state : UmbrellaState) :
    Except StoreError StoreAnswer × RedisUmbrella :=
  if store.existsUmbrella id then (.ok .done, store.writeState id state)
  else (.error (.umbrellaNotFound id), store)

def listUmbrellas (ids : List String) : Except StoreError (List StoredUmbrella) :=
  collectFound (store.getUmbrella serde) ids

def putTransform (transform : TransformRecord) : RedisUmbrella :=
  { store with
    strings := Function.update store.strings
      (transformKey transform.umbrellaId transform.childSchemaId)
      (some (serde.transform.encode transform))
    sets := store.sets.sadd (transformsIndex transform.umbrellaId) transform.childSchemaId }

def getTransform (umbrellaId childId : String) : Except StoreError (Option TransformRecord) :=
  serde.transform.readOption (store.strings (transformKey umbrellaId childId))

def listTransforms (umbrellaId : String) (children : List String) :
    Except StoreError (List TransformRecord) :=
  collectFound (store.getTransform serde umbrellaId) children

/-- The pipeline of `promote_bundle`; the transforms go under the id of the umbrella. -/
def writeBundle (bundle : UmbrellaBundle) : RedisUmbrella :=
  let id := bundle.umbrella.umbrellaId
  let activated : RedisUmbrella := { store with
    hashes := Function.update store.hashes (umbKey id)
      ⟨some (serde.umbrella.encode bundle.umbrella), some "active"⟩
    sets := ((store.sets.sadd (stateIndex .active) id).srem (stateIndex .provisional) id).srem
      (stateIndex .rejected) id }
  bundle.transforms.foldl (fun store transform ↦ { store with
    strings := Function.update store.strings (transformKey id transform.childSchemaId)
      (some (serde.transform.encode transform))
    sets := store.sets.sadd (transformsIndex id) transform.childSchemaId }) activated

def promoteBundle (bundle : UmbrellaBundle) : Except StoreError StoreAnswer × RedisUmbrella :=
  match bundle.mismatch with
  | some error => (.error error, store)
  | none => (.ok .done, store.writeBundle serde bundle)

def putLineageAssertion (assertion : LineageAssertion) : RedisUmbrella :=
  { store with
    strings := Function.update store.strings (lineageKey assertion.umbrellaId)
      (some (serde.lineage.encode assertion)) }

def getLineageAssertion (umbrellaId : String) : Except StoreError (Option LineageAssertion) :=
  serde.lineage.readOption (store.strings (lineageKey umbrellaId))

end RedisUmbrella

namespace RedisUmbrella

variable {serde : Serde} {store : RedisUmbrella} {bundle : UmbrellaBundle}

theorem umbrellaId_of_mismatch (hbundle : bundle.mismatch = none) :
    ∀ transform ∈ bundle.transforms, transform.umbrellaId = bundle.umbrella.umbrellaId := by
  intro transform hmem
  have hfind := List.find?_eq_none.mp (Option.map_eq_none_iff.mp hbundle) transform hmem
  exact of_not_not fun hne ↦ hfind (decide_eq_true hne)

/-- A promotion puts the umbrella as active and then every transform. -/
theorem writeBundle_eq (hbundle : bundle.mismatch = none) :
    store.writeBundle serde bundle = bundle.transforms.foldl (putTransform serde)
      (store.putUmbrella serde bundle.umbrella .active) := by
  have hsets : ((store.sets.sadd (stateIndex .active) bundle.umbrella.umbrellaId).srem
      (stateIndex .provisional) bundle.umbrella.umbrellaId).srem (stateIndex .rejected)
        bundle.umbrella.umbrellaId =
      moveToState store.sets bundle.umbrella.umbrellaId .active := by
    have hprovisional : stateIndex .active ≠ stateIndex .provisional := by decide
    ext key member
    simp only [moveToState, allStates, List.foldl_cons, List.foldl_nil, KeyedSets.mem_srem,
      KeyedSets.mem_sadd, reduceCtorEq, if_false, if_true]
    grind
  unfold writeBundle putUmbrella
  dsimp only
  rw [hsets]
  apply List.foldl_ext
  intro written transform hmem
  unfold putTransform
  rw [umbrellaId_of_mismatch hbundle transform hmem]

end RedisUmbrella

/-- `SMEMBERS` returns each member once, in any order. -/
def Enumerates (members : List String) (set : Finset String) : Prop :=
  members.Nodup ∧ members.toFinset = set

instance (members : List String) (set : Finset String) : Decidable (Enumerates members set) :=
  inferInstanceAs (Decidable (_ ∧ _))

/-- One operation; `members` is what `SMEMBERS` returns to a listing. -/
def RedisUmbrella.apply (serde : Serde) (store : RedisUmbrella) (op : StoreOp)
    (members : List String) : Option (Except StoreError StoreAnswer × RedisUmbrella) :=
  match op with
  | .putUmbrella schema state => some (.ok .done, store.putUmbrella serde schema state)
  | .getUmbrella id => some ((store.getUmbrella serde id).map .umbrella, store)
  | .setState id state => some (store.setState id state)
  | .listUmbrellas state =>
    if Enumerates members (store.sets (stateIndex state)) then
      some ((store.listUmbrellas serde members).map .umbrellas, store)
    else none
  | .putTransform transform => some (.ok .done, store.putTransform serde transform)
  | .getTransform umbrellaId childId =>
    some ((store.getTransform serde umbrellaId childId).map .transform, store)
  | .listTransforms umbrellaId =>
    if Enumerates members (store.sets (transformsIndex umbrellaId)) then
      some ((store.listTransforms serde umbrellaId members).map .transforms, store)
    else none
  | .promoteBundle bundle => some (store.promoteBundle serde bundle)
  | .putLineageAssertion assertion => some (.ok .done, store.putLineageAssertion serde assertion)
  | .getLineageAssertion umbrellaId =>
    some ((store.getLineageAssertion serde umbrellaId).map .lineage, store)

end Deblob.Redis
