import Deblob.Core.Identity
import Deblob.Lib.TransitionSystem
import Deblob.Lib.Window
import Mathlib.Logic.Function.Basic

/-!
# The registry of sources

A source is registered with the time of an observation. The client reads the record, merges the time
into its window and writes it back, each in a round trip of its own. A write loses the observations
that were stored since the read, unless what was read and the own time cover them.
-/

namespace Deblob.Redis

open Core Lib

abbrev SourceId := DigestId "src_"

/-- The preimage is tagged with the letter `s`. -/
def SourceId.fromSource (sha256 : Bytes → Digest) (source : String) : SourceId :=
  .fromDigest (sha256 (115 :: utf8 source))

structure SourceRecord where
  sourceId : SourceId
  name : String
  firstSeenMs : ℤ
  lastSeenMs : ℤ
deriving DecidableEq

/-- The hash of a source; a time that is absent or no number is `none`. -/
structure SourceHash where
  name : String
  firstSeenMs : Option ℤ
  lastSeenMs : Option ℤ

/-- The hashes by identifier, and the set of identifiers in the order they were added. -/
structure SourceStore where
  hashes : SourceId → Option SourceHash
  index : List SourceId

namespace SourceStore

def empty : SourceStore := ⟨fun _ ↦ none, []⟩

def read (store : SourceStore) (id : SourceId) : Option SourceRecord :=
  (store.hashes id).map fun hash ↦
    ⟨id, hash.name, hash.firstSeenMs.getD 0, hash.lastSeenMs.getD 0⟩

/-- `HSET` and `SADD` in one transaction. -/
def write (store : SourceStore) (id : SourceId) (name : String) (window : ℤ × ℤ) : SourceStore where
  hashes := Function.update store.hashes id (some ⟨name, some window.1, some window.2⟩)
  index := if id ∈ store.index then store.index else store.index ++ [id]

def listSources (store : SourceStore) : List SourceRecord := store.index.filterMap store.read

end SourceStore

/-- The window that a call writes, from the record that it read. -/
def mergedWindow (existing : Option SourceRecord) (observedAtMs : ℤ) : ℤ × ℤ :=
  match existing with
  | some record => (min record.firstSeenMs observedAtMs, max record.lastSeenMs observedAtMs)
  | none => (observedAtMs, observedAtMs)

/-! ## The registry in memory -/

/-- At most one record for an identifier. -/
abbrev InMemorySources := List SourceRecord

namespace InMemorySources

def get (sources : InMemorySources) (id : SourceId) : Option SourceRecord :=
  sources.find? fun record ↦ record.sourceId = id

def register (sources : InMemorySources) (id : SourceId) (name : String) (observedAtMs : ℤ) :
    InMemorySources :=
  match sources.get id with
  | some _ => sources.map fun record ↦
    if record.sourceId = id then
      { record with
        firstSeenMs := min record.firstSeenMs observedAtMs
        lastSeenMs := max record.lastSeenMs observedAtMs }
    else record
  | none => sources ++ [⟨id, name, observedAtMs, observedAtMs⟩]

/-- The registry after the calls for one source. -/
def registered (id : SourceId) (name : String) (times : List ℤ) : InMemorySources :=
  times.foldl (fun sources time ↦ sources.register id name time) []

end InMemorySources

/-! ## Concurrent calls -/

section

variable {Client : Type*} [DecidableEq Client] (sha256 : Bytes → Digest) (name : String)

/-- The store, the calls that have read and not yet written, and the times of the calls that are
complete. -/
structure RegisterState (Client : Type*) where
  store : SourceStore
  reading : Client → Option (ℤ × Option SourceRecord)
  completed : List ℤ

/-- A client reads for a call with an observation time, or writes what it merged. -/
inductive RegisterLabel (Client : Type*) where
  | read (client : Client) (observedAtMs : ℤ)
  | write (client : Client)

def registerStep (state : RegisterState Client) :
    RegisterLabel Client → Option (RegisterState Client)
  | .read client observedAtMs =>
    match state.reading client with
    | some _ => none
    | none => some { state with
        reading := Function.update state.reading client
          (some (observedAtMs, state.store.read (.fromSource sha256 name))) }
  | .write client =>
    (state.reading client).map fun (observedAtMs, existing) ↦
      { store := state.store.write (.fromSource sha256 name) name
          (mergedWindow existing observedAtMs)
        reading := Function.update state.reading client none
        completed := state.completed ++ [observedAtMs] }

/-- The calls for one source, by any number of clients. -/
def registerMachine : Machine (RegisterState Client) (RegisterLabel Client) where
  init := ⟨.empty, fun _ ↦ none, []⟩
  step := registerStep sha256 name

/-- The stored window lies within what the call has read and its own time. -/
def Covers (existing : Option SourceRecord) (observedAtMs : ℤ) (stored : SourceRecord) : Prop :=
  (observedAtMs ≤ stored.firstSeenMs ∨
      ∃ record ∈ existing, record.firstSeenMs ≤ stored.firstSeenMs) ∧
    (stored.lastSeenMs ≤ observedAtMs ∨ ∃ record ∈ existing, stored.lastSeenMs ≤ record.lastSeenMs)

instance (existing : Option SourceRecord) (observedAtMs : ℤ) (stored : SourceRecord) :
    Decidable (Covers existing observedAtMs stored) :=
  inferInstanceAs (Decidable (_ ∧ _))

/-- No observation that a write would forget was stored since its read. -/
def WritesCover (state : RegisterState Client) : RegisterLabel Client → Prop
  | .read _ _ => True
  | .write client => ∀ call ∈ state.reading client,
    ∀ stored ∈ state.store.read (.fromSource sha256 name), Covers call.2 call.1 stored

instance (state : RegisterState Client) (label : RegisterLabel Client) :
    Decidable (WritesCover sha256 name state label) :=
  match label with
  | .read _ _ => inferInstanceAs (Decidable True)
  | .write client => inferInstanceAs (Decidable (∀ call ∈ state.reading client,
    ∀ stored ∈ state.store.read (.fromSource sha256 name), Covers call.2 call.1 stored))

/-- When all calls are complete, the record has the least and the greatest of their times, and the
registry in memory has the same record after the same calls in any order. -/
def Converged (state : RegisterState Client) : Prop :=
  (∀ client, state.reading client = none) → state.completed ≠ [] →
    ∃ record, state.store.read (.fromSource sha256 name) = some record ∧ record.name = name ∧
      IsLeast {time | time ∈ state.completed} record.firstSeenMs ∧
      IsGreatest {time | time ∈ state.completed} record.lastSeenMs ∧
      state.store.listSources = [record] ∧
      ∀ times, times.Perm state.completed →
        (InMemorySources.registered (.fromSource sha256 name) name times).get
          (.fromSource sha256 name) = some record ∧
        InMemorySources.registered (.fromSource sha256 name) name times = [record]

/-! ## The record in memory -/

/-- The registry in memory has one record, with the window of the times. -/
theorem InMemorySources.registered_eq (id : SourceId) {times : List ℤ} (htimes : times ≠ []) :
    ∃ window, InMemorySources.registered id name times = [⟨id, name, window.1, window.2⟩] ∧
      IsWindow times window := by
  induction times using List.reverseRecOn with
  | nil => exact absurd rfl htimes
  | append_singleton times time ih =>
      rw [InMemorySources.registered, List.foldl_append, List.foldl_cons, List.foldl_nil,
        ← InMemorySources.registered]
      by_cases hnil : times = []
      · subst hnil
        exact ⟨(time, time), rfl, IsWindow.singleton time⟩
      · rcases ih hnil with ⟨⟨first, last⟩, heq, hleast, hgreatest⟩
        refine ⟨(min first time, max last time), ?_, ?_⟩
        · rw [heq]
          simp [InMemorySources.register, InMemorySources.get]
        · refine IsWindow.concat hleast.1 hgreatest.1 ?_ ?_
          · exact fun other hother ↦ (min_le_left _ _).trans (hleast.2 hother)
          · exact fun other hother ↦ (hgreatest.2 hother).trans (le_max_left _ _)

/-! ## Runs in which every write covers -/

/-- The record has the window of the completed calls, and what a call has read are times of
completed calls. -/
structure RegisterInv (state : RegisterState Client) : Prop where
  record : ∀ stored, state.store.read (.fromSource sha256 name) = some stored →
    stored.name = name ∧ IsWindow state.completed (stored.firstSeenMs, stored.lastSeenMs)
  registered : state.store.read (.fromSource sha256 name) = none → state.completed = []
  index : state.store.index = if state.completed = [] then [] else [.fromSource sha256 name]
  reading : ∀ client time existing, state.reading client = some (time, existing) →
    ∀ record ∈ existing, record.firstSeenMs ∈ state.completed ∧ record.lastSeenMs ∈ state.completed

variable {sha256} {name}

omit [DecidableEq Client] in
theorem registerInv_init :
    RegisterInv sha256 name (⟨.empty, fun _ ↦ none, []⟩ : RegisterState Client) where
  record := nofun
  registered _ := rfl
  index := rfl
  reading := nofun

/-- A read changes nothing but what its client has read. -/
theorem RegisterInv.read_step {state : RegisterState Client} (hinv : RegisterInv sha256 name state)
    (client : Client) (observedAtMs : ℤ) :
    RegisterInv sha256 name { state with
      reading := Function.update state.reading client
        (some (observedAtMs, state.store.read (.fromSource sha256 name))) } where
  record := hinv.record
  registered := hinv.registered
  index := hinv.index
  reading := by
    intro other time existing hreading record hrecord
    by_cases hother : other = client
    · subst hother
      simp only [Function.update_self, Option.some.injEq, Prod.mk.injEq] at hreading
      rw [← hreading.2] at hrecord
      have hwindow := (hinv.record record hrecord).2
      exact ⟨hwindow.1.1, hwindow.2.1⟩
    · simp only [Function.update_of_ne hother] at hreading
      exact hinv.reading other time existing hreading record hrecord

omit [DecidableEq Client] in
/-- The window that a covering write stores is that of all completed calls and its own time. -/
theorem RegisterInv.isWindow_merged {state : RegisterState Client}
    (hinv : RegisterInv sha256 name state) {client : Client} {observedAtMs : ℤ}
    {existing : Option SourceRecord}
    (hreading : state.reading client = some (observedAtMs, existing))
    (hcovers : ∀ stored, state.store.read (.fromSource sha256 name) = some stored →
      Covers existing observedAtMs stored) :
    IsWindow (state.completed ++ [observedAtMs]) (mergedWindow existing observedAtMs) := by
  -- the bounds of the stored record are bounds of all completed calls
  have hbounds (other : ℤ) (hother : other ∈ state.completed) : ∃ stored,
      Covers existing observedAtMs stored ∧ stored.firstSeenMs ≤ other ∧
        other ≤ stored.lastSeenMs := by
    cases hstored : state.store.read (.fromSource sha256 name) with
    | none =>
        rw [hinv.registered hstored] at hother
        cases hother
    | some stored =>
        have hwindow := (hinv.record stored hstored).2
        exact ⟨stored, hcovers stored hstored, hwindow.1.2 hother, hwindow.2.2 hother⟩
  cases existing with
  | none =>
      refine IsWindow.concat_self ?_ ?_
      · intro other hother
        rcases hbounds other hother with ⟨stored, ⟨hfirst, -⟩, hlower, -⟩
        exact (by simpa using hfirst : observedAtMs ≤ stored.firstSeenMs).trans hlower
      · intro other hother
        rcases hbounds other hother with ⟨stored, ⟨-, hlast⟩, -, hupper⟩
        exact hupper.trans (by simpa using hlast)
  | some record =>
      rcases hinv.reading client observedAtMs _ hreading record rfl with ⟨hfirst, hlast⟩
      refine IsWindow.concat hfirst hlast ?_ ?_
      · intro other hother
        rcases hbounds other hother with ⟨stored, ⟨hcovers, -⟩, hlower, -⟩
        have hmin : observedAtMs ≤ stored.firstSeenMs ∨
            record.firstSeenMs ≤ stored.firstSeenMs := by simpa using hcovers
        exact (min_le_iff.mpr hmin.symm).trans hlower
      · intro other hother
        rcases hbounds other hother with ⟨stored, ⟨-, hcovers⟩, -, hupper⟩
        have hmax : stored.lastSeenMs ≤ observedAtMs ∨
            stored.lastSeenMs ≤ record.lastSeenMs := by simpa using hcovers
        exact hupper.trans (le_max_iff.mpr hmax.symm)

theorem read_write (store : SourceStore) (id : SourceId) (window : ℤ × ℤ) :
    (store.write id name window).read id = some ⟨id, name, window.1, window.2⟩ := by
  simp [SourceStore.read, SourceStore.write]

omit [DecidableEq Client] in
theorem read_sourceId {store : SourceStore} {id : SourceId} {record : SourceRecord}
    (hread : store.read id = some record) : record.sourceId = id := by
  rcases Option.map_eq_some_iff.mp hread with ⟨hash, -, rfl⟩
  rfl

omit [DecidableEq Client] in
/-- A write that does not cover forgets an observation: it stores another window. -/
theorem RegisterInv.not_isWindow_merged {state : RegisterState Client}
    (hinv : RegisterInv sha256 name state) {observedAtMs : ℤ} {existing : Option SourceRecord}
    {stored : SourceRecord}
    (hstored : state.store.read (.fromSource sha256 name) = some stored)
    (huncovered : ¬ Covers existing observedAtMs stored) :
    ¬ IsWindow (state.completed ++ [observedAtMs]) (mergedWindow existing observedAtMs) := by
  intro hmerged
  have hwindow := (hinv.record stored hstored).2
  have hlower := hmerged.1.2 (List.mem_append_left _ hwindow.1.1)
  have hupper := hmerged.2.2 (List.mem_append_left _ hwindow.2.1)
  refine huncovered ?_
  cases existing with
  | none => exact ⟨.inl hlower, .inl hupper⟩
  | some record =>
      constructor
      · rcases min_le_iff.mp hlower with hrecord | hself
        · exact .inr ⟨record, rfl, hrecord⟩
        · exact .inl hself
      · rcases le_max_iff.mp hupper with hrecord | hself
        · exact .inr ⟨record, rfl, hrecord⟩
        · exact .inl hself

/-- A covering write stores the window of all completed calls. -/
theorem RegisterInv.write_step {state : RegisterState Client} (hinv : RegisterInv sha256 name state)
    {client : Client} {observedAtMs : ℤ} {existing : Option SourceRecord}
    (hreading : state.reading client = some (observedAtMs, existing))
    (hcovers : ∀ stored, state.store.read (.fromSource sha256 name) = some stored →
      Covers existing observedAtMs stored) :
    RegisterInv sha256 name
      { store := state.store.write (.fromSource sha256 name) name
          (mergedWindow existing observedAtMs)
        reading := Function.update state.reading client none
        completed := state.completed ++ [observedAtMs] } where
  record := by
    intro stored hstored
    rw [read_write, Option.some.injEq] at hstored
    subst hstored
    exact ⟨rfl, hinv.isWindow_merged hreading hcovers⟩
  registered := by
    intro hnone
    rw [read_write] at hnone
    cases hnone
  index := by
    simp only [SourceStore.write, hinv.index, List.append_eq_nil_iff, List.cons_ne_nil, and_false,
      if_false]
    split_ifs <;> simp_all
  reading := by
    intro other time found hfound record hrecord
    by_cases hother : other = client
    · subst hother
      simp at hfound
    · simp only [Function.update_of_ne hother] at hfound
      have hmem := hinv.reading other time found hfound record hrecord
      exact ⟨List.mem_append_left _ hmem.1, List.mem_append_left _ hmem.2⟩

theorem registerInv {state : RegisterState Client}
    (hreached : (registerMachine sha256 name).Reachable (WritesCover sha256 name) state) :
    RegisterInv sha256 name state := by
  refine hreached.invariant registerInv_init ?_
  intro state label next hinv hguard hstep
  cases label with
  | read client observedAtMs =>
      simp only [registerMachine, registerStep] at hstep
      split at hstep
      · cases hstep
      · cases hstep
        exact hinv.read_step client observedAtMs
  | write client =>
      rcases Option.map_eq_some_iff.mp hstep with ⟨⟨observedAtMs, existing⟩, hreading, rfl⟩
      exact hinv.write_step hreading (hguard (observedAtMs, existing) hreading)

/-- In every run whose writes cover what was stored since their reads, the record converges to the
window of all calls. -/
theorem registrations_converge {state : RegisterState Client}
    (hreached : (registerMachine sha256 name).Reachable (WritesCover sha256 name) state) :
    Converged sha256 name state := by
  intro _ hcompleted
  have hinv := registerInv hreached
  cases hstored : state.store.read (.fromSource sha256 name) with
  | none => exact absurd (hinv.registered hstored) hcompleted
  | some record =>
      rcases hinv.record record hstored with ⟨hname, hwindow⟩
      refine ⟨record, rfl, hname, hwindow.1, hwindow.2, ?_, ?_⟩
      · rw [SourceStore.listSources, hinv.index, if_neg hcompleted]
        simp [hstored]
      · intro times hperm
        have htimes : times ≠ [] := fun hnil ↦ hcompleted (List.nil_perm.mp (hnil ▸ hperm))
        rcases InMemorySources.registered_eq name (.fromSource sha256 name) htimes with
          ⟨window, heq, hmemory⟩
        have hsame := hmemory.eq_of_perm hperm hwindow
        have hrecord : record = ⟨.fromSource sha256 name, name, window.1, window.2⟩ := by
          rw [hsame, ← read_sourceId hstored, ← hname]
        rw [hrecord]
        exact ⟨by simp [heq, InMemorySources.get], heq⟩

end

/-! ### Two clients -/

def sampleDigest : Bytes → Digest := fun _ ↦ Vector.replicate 32 0

/-- Two clients register one time together, and one of them a later time afterwards. -/
theorem registrations_converge_together :
    ∃ state : RegisterState ℕ, state.completed = [100, 100, 250] ∧
      Converged sampleDigest "orders" state := by
  refine ⟨_, ?_, registrations_converge (Machine.reachableFrom_replay [.read 0 100, .read 1 100,
    .write 0, .write 1, .read 0 250, .write 0] rfl)⟩
  rfl

/-- Two clients read before one of them writes, and the later observation is forgotten. -/
theorem registrations_diverge : ∃ state : RegisterState ℕ,
    (registerMachine sampleDigest "orders").Reachable Machine.always state ∧
      ¬ Converged sampleDigest "orders" state := by
  refine ⟨_, Machine.reachableFrom_replay [.read 0 250, .read 1 100, .write 0, .write 1] rfl, ?_⟩
  intro hconverged
  refine absurd (hconverged ?_ (by simp)) ?_
  · intro client
    by_cases hfirst : client = 0 <;> by_cases hsecond : client = 1 <;>
      simp [Function.update, registerMachine, hfirst, hsecond]
  · rintro ⟨record, hread, -, -, hgreatest, -⟩
    have hlast : (250 : ℤ) ≤ record.lastSeenMs := hgreatest.2 (by simp)
    have hstored : record.lastSeenMs = 100 := by
      cases hread
      rfl
    omega

end Deblob.Redis
