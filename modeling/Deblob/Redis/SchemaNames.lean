import Deblob.Redis.SchemaRecords
import Deblob.Retrieval.Distance
import Deblob.Semantic.Canon
import Mathlib.Data.List.DropRight

/-!
# The names of schemas

A schema is named by its operators, by a model or by a heuristic, and a name is checked before it is
written. Whoever writes in whatever order, the schema shows the last name that a human gave it, or
the last one at all if no human did. A name is laid over the provenance and touches nothing else.
-/

namespace Deblob.Redis

open Core Lib
open Retrieval (Unicode)
open Semantic.Canon (isControl)
open Umbrella (Value)

def validSources : List String := ["human", "slm", "heuristic"]

def maxNameChars : ℕ := 60

structure PutNameRequest where
  name : String
  source : String
  metadata : Option Value

structure NameWriteResult where
  applied : Bool
  name : String
  source : String
  reason : Option String

inductive NameError where
  | empty
  | tooLong
  | control
  | noAlphanumeric
deriving DecidableEq

def NameError.text : NameError → String
  | .empty => "name must not be empty"
  | .tooLong => "name must be at most " ++ toString maxNameChars ++ " characters"
  | .control => "name must not contain control characters"
  | .noAlphanumeric => "name must contain at least one letter or digit"

inductive PutNameError where
  | id (text : String)
  | source (raw : String)
  | name (error : NameError)
  | degraded
  | notFound
deriving DecidableEq

/-! ## Checking a name -/

/-- The characters with the property `White_Space`. -/
def isWhitespace (char : Char) : Bool :=
  (9 ≤ char.toNat && char.toNat ≤ 13) || (0x2000 ≤ char.toNat && char.toNat ≤ 0x200a) ||
    char.toNat ∈ [0x20, 0x85, 0xa0, 0x1680, 0x2028, 0x2029, 0x202f, 0x205f, 0x3000]

def trim (text : String) : String :=
  String.ofList ((text.toList.dropWhile isWhitespace).rdropWhile isWhitespace)

/-- The name without the whitespace around it. -/
def validateName (unicode : Unicode) (raw : String) : Except NameError String :=
  let name := trim raw
  if name = "" then .error .empty
  else if maxNameChars < name.length then .error .tooLong
  else if name.toList.any isControl then .error .control
  else if !name.toList.any unicode.isAlphanumeric then .error .noAlphanumeric
  else .ok name

/-- What a name that is written looks like. -/
structure ValidName (unicode : Unicode) (name : String) : Prop where
  trimmed : trim name = name
  nonempty : name ≠ ""
  short : name.length ≤ maxNameChars
  printable : ∀ char ∈ name.toList, isControl char = false
  readable : ∃ char ∈ name.toList, unicode.isAlphanumeric char = true

/-- What was trimmed has no whitespace at its ends. -/
theorem trim_trim (text : String) : trim (trim text) = trim text := by
  have hstart : ((text.toList.dropWhile isWhitespace).rdropWhile isWhitespace).dropWhile
      isWhitespace = (text.toList.dropWhile isWhitespace).rdropWhile isWhitespace := by
    rw [List.dropWhile_eq_self_iff]
    intro hlength
    -- the first character is the one at which the first trimming stopped
    have hkept := List.rdropWhile_prefix isWhitespace (text.toList.dropWhile isWhitespace)
    rw [hkept.getElem hlength]
    exact List.dropWhile_get_zero_not isWhitespace text.toList (hlength.trans_le hkept.length_le)
  unfold trim
  rw [String.toList_ofList, hstart, List.rdropWhile_idempotent]

theorem validateName_valid {unicode : Unicode} {raw name : String}
    (hname : validateName unicode raw = .ok name) : ValidName unicode name := by
  unfold validateName at hname
  dsimp only at hname
  split_ifs at hname with hempty hlong hcontrol hspeechless
  cases hname
  refine ⟨trim_trim raw, hempty, not_lt.mp hlong, fun char hchar ↦ ?_, ?_⟩
  · rw [Bool.eq_false_iff]
    exact fun hbad ↦ hcontrol (List.any_eq_true.mpr ⟨char, hchar, hbad⟩)
  · simpa using hspeechless

/-! ## Writing a name -/

/-- A name that passed the checks; no metadata is the empty text. -/
structure NamePut where
  id : SchemaId
  name : String
  source : String
  metadata : String

section

variable (unicode : Unicode) (toText : Value → String)

/-- What `put_name` checks before it writes; `toText` is `to_string` of a JSON value. -/
def checkName (schId : String) (request : PutNameRequest) : Except PutNameError NamePut :=
  match (DigestId.parse schId : Option SchemaId) with
  | none => .error (.id schId)
  | some id =>
    if request.source ∉ validSources then .error (.source request.source)
    else
      (validateName unicode request.name).mapError .name |>.map fun name ↦
        ⟨id, name, request.source, (request.metadata.map toText).getD ""⟩

/-- A write is refused while the store does not persist. -/
def writeName (healthy : Bool) (vault : SchemaVault) (put : NamePut) :
    Except PutNameError NameWriteResult × SchemaVault :=
  if !healthy then (.error .degraded, vault)
  else
    let outcome := setSchemaName vault put.id put.name put.source put.metadata
    match outcome.1 with
    | .applied => (.ok ⟨true, put.name, put.source, none⟩, outcome.2)
    | .skippedHuman => (.ok ⟨false, put.name, put.source,
        some "a human-set name is protected and was not overwritten"⟩, outcome.2)
    | .notFound => (.error .notFound, outcome.2)

end

/-- The vault and the puts that were answered, with their answers. -/
structure NamedVault where
  vault : SchemaVault
  answered : List (NamePut × NameWriteResult)

def NamedVault.empty : NamedVault := ⟨.empty, []⟩

inductive NamingEvent where
  | publish (record : SchemaRecord) (context : PublishContext)
  | put (schId : String) (request : PutNameRequest) (healthy : Bool)

/-- `put_name`; the answer is kept if there is one. -/
def NamedVault.put (unicode : Unicode) (toText : Value → String) (state : NamedVault)
    (schId : String) (request : PutNameRequest) (healthy : Bool) : NamedVault :=
  match checkName unicode toText schId request with
  | .error _ => state
  | .ok put =>
    match writeName healthy state.vault put with
    | (.error _, next) => { state with vault := next }
    | (.ok result, next) => ⟨next, state.answered ++ [(put, result)]⟩

/-- Anybody names schemas while others publish. -/
def namingMachine (json : RecordJson) (unicode : Unicode) (toText : Value → String) :
    Machine NamedVault NamingEvent where
  init := .empty
  step state
    | .publish record context =>
      some { state with vault := (publishRecord json state.vault record context).2 }
    | .put schId request healthy => some (state.put unicode toText schId request healthy)

/-! ## Which name is shown -/

def NamePut.byHuman (put : NamePut) : Bool := put.source == "human"

/-- The last put by a human, or the last one if there is none by a human. -/
def winner (puts : List NamePut) : Option NamePut :=
  (puts.reverse.find? NamePut.byHuman).or puts.getLast?

def NamePut.fields (put : NamePut) : NameFields :=
  ⟨some put.name, some put.source, if put.metadata = "" then none else some put.metadata⟩

def unnamed : NameFields := ⟨none, none, none⟩

def fieldsOf (shown : Option NamePut) : NameFields := (shown.map NamePut.fields).getD unnamed

/-- The puts for one schema. -/
def NamedVault.puts (state : NamedVault) (id : SchemaId) : List NamePut :=
  (state.answered.map Prod.fst).filter (·.id = id)

theorem winner_concat (puts : List NamePut) (put : NamePut) :
    winner (puts ++ [put]) =
      if put.byHuman ∨ puts.any NamePut.byHuman = false then some put else winner puts := by
  unfold winner
  rw [List.reverse_append, List.reverse_singleton, List.singleton_append, List.find?_cons,
    List.getLast?_append]
  cases hhuman : put.byHuman with
  | true => simp
  | false =>
      cases hfound : puts.reverse.find? NamePut.byHuman with
      | none =>
          have hnone : puts.any NamePut.byHuman = false := by
            simpa using hfound
          simp [hnone]
      | some other =>
          have hany : puts.any NamePut.byHuman = true :=
            List.any_eq_true.mpr ⟨other, List.mem_reverse.mp (List.mem_of_find?_eq_some hfound),
              List.find?_some hfound⟩
          simp [hany]

/-- The winner is a human's exactly if a human put a name. -/
theorem byHuman_winner (puts : List NamePut) :
    (fieldsOf (winner puts)).source = some "human" ↔ puts.any NamePut.byHuman = true := by
  induction puts using List.reverseRecOn with
  | nil => simp [winner, fieldsOf, unnamed]
  | append_singleton puts put ih =>
      rw [winner_concat, List.any_append]
      split_ifs with hwins
      · rcases hwins with hhuman | hnone
        · simp [fieldsOf, NamePut.fields, hhuman, eq_of_beq hhuman]
        · simp [fieldsOf, NamePut.fields, hnone, NamePut.byHuman]
      · rw [not_or, Bool.not_eq_false] at hwins
        simp [ih, hwins.2]

/-! ## What a run of namings keeps -/

section

variable {json : RecordJson} {unicode : Unicode} {toText : Value → String}
  {state next : NamedVault} {event : NamingEvent} {id : SchemaId}

/-- A put whose answer is kept passed the checks, and either it was written, or it was not by a
human and the name was by one. -/
structure Answered (unicode : Unicode) (before : NamedVault) (put : NamePut)
    (result : NameWriteResult) (after : NamedVault) : Prop where
  source : put.source ∈ validSources
  valid : ValidName unicode put.name
  answered : after.answered = before.answered ++ [(put, result)]
  applied : result.applied = true ↔
    (put.byHuman ∨ (before.vault.names put.id).source ≠ some "human")
  names : ∀ id, after.vault.names id =
    if id = put.id ∧ result.applied = true then put.fields else before.vault.names id

theorem checkName_eq_ok {schId : String} {request : PutNameRequest} {put : NamePut}
    (hput : checkName unicode toText schId request = .ok put) :
    put.source ∈ validSources ∧ ValidName unicode put.name := by
  unfold checkName at hput
  split at hput
  · cases hput
  · split_ifs at hput with hsource
    cases hname : validateName unicode request.name with
    | error error =>
        rw [hname] at hput
        cases hput
    | ok name =>
        rw [hname] at hput
        cases hput
        exact ⟨hsource, validateName_valid hname⟩

theorem writeName_cases (healthy : Bool) (vault : SchemaVault) (put : NamePut) :
    (∃ error, writeName healthy vault put = (.error error, vault)) ∨
      ∃ result after, writeName healthy vault put = (.ok result, after) ∧
        (result.applied = true ↔ (put.byHuman ∨ (vault.names put.id).source ≠ some "human")) ∧
        ∀ id, after.names id =
          if id = put.id ∧ result.applied = true then put.fields else vault.names id := by
  unfold writeName setSchemaName
  cases healthy with
  | false => exact .inl ⟨_, rfl⟩
  | true =>
      simp only [Bool.not_true, Bool.false_eq_true, if_false]
      by_cases hmissing : (vault.registry.schemas put.id).isNone
      · rw [if_pos hmissing]
        exact .inl ⟨_, rfl⟩
      rw [if_neg hmissing]
      right
      by_cases hprotected : put.source ≠ "human" ∧ (vault.names put.id).source = some "human"
      · rw [if_pos hprotected]
        refine ⟨_, _, rfl, ?_, fun id ↦ by simp⟩
        simp [NamePut.byHuman, hprotected.1, hprotected.2]
      · rw [if_neg hprotected]
        refine ⟨_, _, rfl, ?_, fun id ↦ ?_⟩
        · rw [not_and_or, not_not] at hprotected
          simp [NamePut.byHuman, hprotected]
        · dsimp only
          by_cases hid : id = put.id
          · subst hid
            simp [NamePut.fields]
          · simp [hid]

/-- A step leaves the names and the answers alone, or it answers one put. -/
theorem namingMachine_cases
    (hstep : (namingMachine json unicode toText).step state event = some next) :
    (next.vault.names = state.vault.names ∧ next.answered = state.answered) ∨
      ∃ put result, Answered unicode state put result next := by
  cases event with
  | publish record context =>
      cases hstep
      exact .inl ⟨rfl, rfl⟩
  | put schId request healthy =>
      cases hstep
      unfold NamedVault.put
      cases hcheck : checkName unicode toText schId request with
      | error error => exact .inl ⟨rfl, rfl⟩
      | ok put =>
          rcases checkName_eq_ok hcheck with ⟨hsource, hvalid⟩
          rcases writeName_cases healthy state.vault put with
            ⟨error, herror⟩ | ⟨result, after, hwrite, happlied, hnames⟩
          · simp only [herror]
            exact .inl ⟨trivial, trivial⟩
          · simp only [hwrite]
            exact .inr ⟨put, result, hsource, hvalid, rfl, happlied, hnames⟩

/-- The name of every schema is that of the winner, every answered put is a checked one, and it was
written unless a human named the schema before. -/
structure NamesGoverned (unicode : Unicode) (state : NamedVault) : Prop where
  shown : ∀ id, state.vault.names id = fieldsOf (winner (state.puts id))
  checked : ∀ entry ∈ state.answered, entry.1.source ∈ validSources ∧
    ValidName unicode entry.1.name
  applied : ∀ before put result, before ++ [(put, result)] <+: state.answered →
    (result.applied = true ↔
      (put.byHuman ∨ ∀ earlier ∈ before, earlier.1.id = put.id → earlier.1.byHuman = false))

theorem puts_answered {put : NamePut} {result : NameWriteResult}
    (hanswered : next.answered = state.answered ++ [(put, result)]) (id : SchemaId) :
    next.puts id = if put.id = id then state.puts id ++ [put] else state.puts id := by
  unfold NamedVault.puts
  rw [hanswered, List.map_append, List.filter_append]
  by_cases hid : put.id = id <;> simp [hid]

theorem any_puts_byHuman : (state.puts id).any NamePut.byHuman = false ↔
    ∀ earlier ∈ state.answered, earlier.1.id = id → earlier.1.byHuman = false := by
  simp [NamedVault.puts]

theorem NamesGoverned.step (hinv : NamesGoverned unicode state)
    (hstep : (namingMachine json unicode toText).step state event = some next) :
    NamesGoverned unicode next := by
  rcases namingMachine_cases hstep with ⟨hnames, hanswered⟩ | ⟨put, result, hput⟩
  · have hputs : next.puts = state.puts := by
      funext id
      rw [NamedVault.puts, hanswered]
      rfl
    exact ⟨fun id ↦ by rw [hnames, hputs, hinv.shown], by rw [hanswered]; exact hinv.checked,
      by rw [hanswered]; exact hinv.applied⟩
  have happlied : result.applied = true ↔
      (put.byHuman ∨ (state.puts put.id).any NamePut.byHuman = false) := by
    rw [hput.applied, hinv.shown, ne_eq, byHuman_winner, Bool.not_eq_true]
  constructor
  · intro id
    rw [hput.names, puts_answered hput.answered]
    by_cases hid : put.id = id
    · subst hid
      rw [if_pos rfl, winner_concat]
      by_cases hwins : put.byHuman ∨ (state.puts put.id).any NamePut.byHuman = false
      · rw [if_pos hwins, if_pos ⟨rfl, happlied.mpr hwins⟩]
        rfl
      · rw [if_neg hwins, if_neg fun hboth ↦ hwins (happlied.mp hboth.2)]
        exact hinv.shown put.id
    · rw [if_neg hid, if_neg fun hboth ↦ hid hboth.1.symm]
      exact hinv.shown id
  · intro entry hentry
    rw [hput.answered, List.mem_append, List.mem_singleton] at hentry
    rcases hentry with hold | rfl
    · exact hinv.checked entry hold
    · exact ⟨hput.source, hput.valid⟩
  · intro before other answer hbefore
    rw [hput.answered, List.prefix_concat_iff] at hbefore
    rcases hbefore with heq | hold
    · rcases List.append_inj' heq rfl with ⟨rfl, hlast⟩
      cases hlast
      rw [happlied, any_puts_byHuman]
    · exact hinv.applied before other answer hold

theorem namesGoverned_reachable
    (reached : (namingMachine json unicode toText).Reachable Machine.always state) :
    NamesGoverned unicode state := by
  have hempty : NamesGoverned unicode .empty := by
    constructor
    · intro id
      rfl
    · intro entry hentry
      cases hentry
    · intro before put result hbefore
      exact absurd (List.prefix_nil.mp hbefore) (by simp)
  refine reached.invariant hempty fun before event after hinv _ hstep ↦ ?_
  exact hinv.step hstep

/-! ## Reading a named schema -/

/-- The vault in which nothing was ever named. -/
def SchemaVault.withoutNames (vault : SchemaVault) : SchemaVault :=
  { vault with names := fun _ ↦ unnamed }

theorem getEntry_insertEntry (key other : String) (value : Option Value)
    (entries : List (String × Value)) :
    getEntry (insertEntry key value entries) other =
      if other = key then value.or (getEntry entries key) else getEntry entries other := by
  unfold insertEntry getEntry
  cases value with
  | none =>
      by_cases hother : other = key
      · subst hother
        rw [if_pos rfl, Option.none_or]
      · rw [if_neg hother]
  | some value => exact lookup_insert entries key other value

/-- A name touches the provenance only, and there only its own three entries. -/
theorem overlayName_put (put : NamePut) (record : SchemaRecord) :
    ∃ provenance, overlayName json put.fields record = { record with provenance := provenance } ∧
      getEntry (provenanceEntries provenance) "label" = some (.string put.name) ∧
      getEntry (provenanceEntries provenance) "name_source" = some (.string put.source) ∧
      ∀ key ∉ ["label", "name_source", "name_meta"], getEntry (provenanceEntries provenance) key =
        getEntry (provenanceEntries record.provenance) key := by
  unfold overlayName NamePut.fields
  rw [if_neg (by simp)]
  dsimp only
  refine ⟨_, rfl, ?_, ?_, fun key hkey ↦ ?_⟩
  · rw [provenanceEntries, getEntry_insertEntry, if_neg (by decide), getEntry_insertEntry,
      if_neg (by decide), getEntry_insertEntry, if_pos rfl]
    rfl
  · rw [provenanceEntries, getEntry_insertEntry, if_neg (by decide), getEntry_insertEntry,
      if_pos rfl]
    rfl
  · simp only [List.mem_cons, List.not_mem_nil, or_false, not_or] at hkey
    rw [provenanceEntries, getEntry_insertEntry, if_neg hkey.2.2, getEntry_insertEntry,
      if_neg hkey.2.1, getEntry_insertEntry, if_neg hkey.1]

/-- A read shows the fields of the name over what an unnamed vault would return. -/
theorem getSchema_withoutNames {vault : SchemaVault} {record : SchemaRecord}
    (hread : getSchema json vault id = .ok (some record)) :
    ∃ plain, getSchema json vault.withoutNames id = .ok (some plain) ∧
      record = overlayName json (vault.names id) plain := by
  have hregistry : vault.withoutNames.registry = vault.registry := rfl
  unfold getSchema at hread ⊢
  rw [hregistry]
  cases hhash : vault.registry.schemas id with
  | none =>
      rw [hhash] at hread
      cases hread
  | some hash =>
      rw [hhash] at hread
      dsimp only at hread ⊢
      cases hstored : recordFromHash json hash.record hash.version with
      | error error =>
          rw [hstored] at hread
          cases hread
      | ok plain =>
          rw [hstored] at hread
          cases hread
          exact ⟨plain, rfl, rfl⟩

end

/-- In any order of namings and publications: a schema shows the last name by a human, or the last
one at all; only checked names are shown; a put is refused exactly if it is not by a human and one
was before; and a name changes nothing of a record but its own entries of the provenance. -/
theorem names_governed (json : RecordJson) (unicode : Unicode) (toText : Value → String)
    (state : NamedVault)
    (reached : (namingMachine json unicode toText).Reachable Machine.always state) :
    NamesGoverned unicode state ∧
      ∀ id record, getSchema json state.vault id = .ok (some record) →
        ∃ plain, getSchema json state.vault.withoutNames id = .ok (some plain) ∧
          (winner (state.puts id) = none → record = plain) ∧
          ∀ put, winner (state.puts id) = some put →
            ∃ provenance, record = { plain with provenance := provenance } ∧
              getEntry (provenanceEntries provenance) "label" = some (.string put.name) ∧
              getEntry (provenanceEntries provenance) "name_source" = some (.string put.source) ∧
              ∀ key ∉ ["label", "name_source", "name_meta"],
                getEntry (provenanceEntries provenance) key =
                  getEntry (provenanceEntries plain.provenance) key := by
  have hinv := namesGoverned_reachable reached
  refine ⟨hinv, fun id record hread ↦ ?_⟩
  rcases getSchema_withoutNames hread with ⟨plain, hplain, hoverlay⟩
  rw [hinv.shown] at hoverlay
  refine ⟨plain, hplain, fun hnone ↦ ?_, fun put hput ↦ ?_⟩
  · rw [hoverlay, hnone]
    rfl
  · rw [hoverlay, hput]
    exact overlayName_put put plain

/-- A schema that a human names and then the model. -/
def namingSample : List NamingEvent :=
  let schema : SchemaId := .fromDigest (.replicate 32 0)
  [.publish ⟨schema, ⟨"fam_0"⟩, 0, "{}", "deblob-canon-v1", .null, none, none, none⟩
      ⟨.fromDigest (.replicate 32 0), sampleBucketKey, [], "actor", "reason", "0"⟩,
    .put schema.asStr ⟨" Order events ", "human", none⟩ true,
    .put schema.asStr ⟨"Orders", "slm", none⟩ true]

/-- The name by the human stays. -/
theorem names_governed_edited : ∃ state,
    (state.vault.names (.fromDigest (.replicate 32 0))).label = some "Order events" ∧
      NamesGoverned .ascii state := by
  refine ⟨_, ?_, (names_governed ⟨fun _ ↦ "{}", fun _ ↦ none, fun _ ↦ none⟩ .ascii (fun _ ↦ "null")
    _ (Machine.reachableFrom_replay namingSample rfl)).1⟩
  decide +kernel

end Deblob.Redis
